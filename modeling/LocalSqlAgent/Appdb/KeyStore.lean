import LocalSqlAgent.Lib.Transition
import Mathlib.Data.Finset.Basic

/-! # The API-key store

`appdb.key_store` and the role writes of `appdb.roles`: the key and role tables, the mutations, and
the merge of the database rows with the environment's keys that every request authenticates
against. The calls are taken one at a time here; `KeyCache` interleaves them. -/

namespace LocalSqlAgent

/-! ## Keys and rows -/

/-- `Principal`. -/
structure Principal where
  /-- The principal's id. -/
  id : String
  /-- A label for logs. -/
  name : String
  /-- The raw column-policy entries. -/
  deniedColumns : List String
  /-- The capabilities held. -/
  capabilities : Finset String
  deriving DecidableEq

/-- A row of `admin_api_keys`, the fields the store reads back into a principal. -/
structure KeyRow where
  /-- The key's hash, the primary key. -/
  keySha256 : String
  /-- The owner. -/
  principalId : String
  /-- A label for logs. -/
  name : String
  /-- The column-policy entries as stored. -/
  deniedColumns : List String
  /-- Set while the key is disabled. -/
  disabledAt : Option String
  /-- Set once the key is revoked, never cleared. -/
  revokedAt : Option String
  deriving DecidableEq, Repr

/-- Whether a row authenticates. -/
def KeyRow.active (row : KeyRow) : Bool := row.disabledAt.isNone && row.revokedAt.isNone

/-- **The two tables** key lookups read: `admin_api_keys`, one row a hash, and
`admin_principal_roles`. -/
structure KeyDb where
  /-- `admin_api_keys`. -/
  keys : List KeyRow
  /-- `admin_principal_roles`: principal id and capability. -/
  roles : List (String × String)
  /-- The hash is the primary key. -/
  keys_nodup : (keys.map (·.keySha256)).Nodup

/-- The environment's keys by hash. -/
abbrev EnvKeys := List (String × Principal)

/-- A set of authenticating principals by key hash. -/
abbrev PrincipalSet := List (String × Principal)

/-- What `normalize_denied_entry` strips from the ends of an entry: white space and invisible format
characters. -/
abbrev EdgeNoise := Char → Bool

/-- `normalize_denied_entry`. -/
def normalizeDeniedEntry (noise : EdgeNoise) (entry : String) : String :=
  String.ofList ((entry.toList.dropWhile noise).reverse.dropWhile noise).reverse

/-- `normalize_denied_entries(entries).entries`: an entry with nothing visible stays as written. -/
def normalizeDeniedEntries (noise : EdgeNoise) (entries : List String) : List String :=
  entries.map fun entry =>
    if normalizeDeniedEntry noise entry = "" then entry else normalizeDeniedEntry noise entry

/-! ## Mutations -/

/-- The two tables a mutation can write. -/
inductive KeyTable where
  | keys
  | roles
  deriving DecidableEq, Repr

/-- The lifecycle mutations, with the values they write. -/
inductive KeyMutation where
  | issueKey (row : KeyRow)
  | setDisabled (keySha256 : String) (disabled : Bool) (now : String)
  | revokeKey (keySha256 now : String)
  | updateDeniedColumns (keySha256 : String) (deniedColumns : List String)
  | approveRequest (principalId columnName : String)
  | grant (principalId capability : String)
  | revokeRole (principalId capability : String)
  deriving DecidableEq, Repr

/-- The table a mutation writes. -/
def KeyMutation.table : KeyMutation → KeyTable
  | .grant .. | .revokeRole .. => .roles
  | _ => .keys

/-- Rewrite the rows of a table, hashes kept. -/
def KeyDb.mapRows (db : KeyDb) (f : KeyRow → KeyRow) (hf : ∀ r, (f r).keySha256 = r.keySha256) :
    KeyDb where
  keys := db.keys.map f
  roles := db.roles
  keys_nodup := by
    have hkeys : db.keys.map ((·.keySha256) ∘ f) = db.keys.map (·.keySha256) :=
      List.map_congr_left fun r _ => hf r
    rw [List.map_map, hkeys]
    exact db.keys_nodup

/-- Remove the first element that satisfies a predicate. -/
def removeFirst {α : Type} (p : α → Bool) : List α → List α
  | [] => []
  | a :: rest => if p a then rest else a :: removeFirst p rest

/-- The entry an access request names, in either spelling. -/
def sameEntry (noise : EdgeNoise) (columnName entry : String) : Bool :=
  entry = columnName ||
    (normalizeDeniedEntry noise columnName ≠ "" &&
      normalizeDeniedEntry noise entry = normalizeDeniedEntry noise columnName)

/-- What an approved request does to one row of the requester: the first entry it names goes, on a
key that is not revoked. -/
def approveOn (noise : EdgeNoise) (principalId columnName : String) (r : KeyRow) : KeyRow :=
  let remaining := removeFirst (sameEntry noise columnName) r.deniedColumns
  if r.principalId = principalId ∧ r.revokedAt = none ∧
      r.deniedColumns.any (sameEntry noise columnName) then
    { r with deniedColumns := normalizeDeniedEntries noise remaining }
  else r

/-- Rewrite the row of one key. -/
def onKey (keySha256 : String) (f : KeyRow → KeyRow) (row : KeyRow) : KeyRow :=
  if row.keySha256 = keySha256 then f row else row

/-- The transaction of a mutation; `none` when it raises and nothing is written (an unknown key, a
hash that is already there). -/
def KeyMutation.apply (noise : EdgeNoise) (db : KeyDb) : KeyMutation → Option KeyDb
  | .issueKey row =>
    if h : row.keySha256 ∈ db.keys.map (·.keySha256) then none
    else some ⟨row :: db.keys, db.roles, List.nodup_cons.mpr ⟨h, db.keys_nodup⟩⟩
  | .setDisabled key disabled now =>
    if key ∈ db.keys.map (·.keySha256) then
      some (db.mapRows (onKey key fun r => { r with disabledAt := if disabled then some now else none })
        fun r => by unfold onKey; split <;> rfl)
    else none
  | .revokeKey key now =>
    if key ∈ db.keys.map (·.keySha256) then
      some (db.mapRows (onKey key fun r => { r with revokedAt := some now })
        fun r => by unfold onKey; split <;> rfl)
    else none
  | .updateDeniedColumns key columns =>
    if key ∈ db.keys.map (·.keySha256) then
      some (db.mapRows
        (onKey key fun r => { r with deniedColumns := normalizeDeniedEntries noise columns })
        fun r => by unfold onKey; split <;> rfl)
    else none
  | .approveRequest principalId columnName =>
    some (db.mapRows (approveOn noise principalId columnName)
      fun r => by unfold approveOn; dsimp only; split <;> rfl)
  | .grant principalId capability =>
    some { db with
      roles := if (principalId, capability) ∈ db.roles then db.roles
        else (principalId, capability) :: db.roles }
  | .revokeRole principalId capability =>
    some { db with roles := db.roles.filter (· ≠ (principalId, capability)) }

/-- A mutation leaves the table it does not write as it was. -/
theorem KeyMutation.apply_frame {noise : EdgeNoise} {db db' : KeyDb} {m : KeyMutation}
    (h : m.apply noise db = some db') :
    (m.table = .keys → db'.roles = db.roles) ∧ (m.table = .roles → db'.keys = db.keys) := by
  cases m with
  | issueKey row =>
    rw [KeyMutation.apply] at h
    split at h
    · cases h
    · cases h
      exact ⟨fun _ => rfl, nofun⟩
  | setDisabled key disabled now =>
    rw [KeyMutation.apply] at h
    split at h
    · cases h
      exact ⟨fun _ => rfl, nofun⟩
    · cases h
  | revokeKey key now =>
    rw [KeyMutation.apply] at h
    split at h
    · cases h
      exact ⟨fun _ => rfl, nofun⟩
    · cases h
  | updateDeniedColumns key columns =>
    rw [KeyMutation.apply] at h
    split at h
    · cases h
      exact ⟨fun _ => rfl, nofun⟩
    · cases h
  | approveRequest principalId columnName =>
    cases h
    exact ⟨fun _ => rfl, nofun⟩
  | grant principalId capability =>
    cases h
    exact ⟨nofun, fun _ => rfl⟩
  | revokeRole principalId capability =>
    cases h
    exact ⟨nofun, fun _ => rfl⟩

/-! ## Loading and merging -/

/-- A row with its role-derived capabilities, as `_load_db_rows` returns it. -/
structure LoadedRow where
  /-- The row. -/
  row : KeyRow
  /-- The owner's granted capabilities. -/
  capabilities : Finset String
  deriving DecidableEq

/-- `_role_capabilities_by_principal`, at one principal. -/
def roleCapabilities (roles : List (String × String)) (principalId : String) : Finset String :=
  ((roles.filter (·.1 = principalId)).map (·.2)).toFinset

/-- The rows `_load_db_rows` builds from the two tables. -/
def joinRows (keys : List KeyRow) (roles : List (String × String)) : List LoadedRow :=
  keys.map fun row => ⟨row, roleCapabilities roles row.principalId⟩

/-- `env_principals[key_hash].capabilities`, empty for a hash the environment lacks. -/
def envCapabilities (env : EnvKeys) (keySha256 : String) : Finset String :=
  ((env.lookup keySha256).map (·.capabilities)).getD ∅

/-- The principal an active row authenticates. -/
def rowPrincipal (noise : EdgeNoise) (env : EnvKeys) (r : LoadedRow) : Principal where
  id := r.row.principalId
  name := r.row.name
  deniedColumns := normalizeDeniedEntries noise r.row.deniedColumns
  capabilities := r.capabilities ∪ envCapabilities env r.row.keySha256

/-- **The merge of `get_active_principals`**: every active row, then the environment's keys whose
hash has no row. -/
def mergePrincipals (noise : EdgeNoise) (rows : List LoadedRow) (env : EnvKeys) : PrincipalSet :=
  ((rows.filter (·.row.active)).map fun r => (r.row.keySha256, rowPrincipal noise env r)) ++
    env.filter fun k => k.1 ∉ rows.map (·.row.keySha256)

/-- The environment's keys as the store reads them: none when their text is malformed. -/
def envOrEmpty (env : Option EnvKeys) : EnvKeys := env.getD []

/-- **The database row is authoritative**: a hash with a row authenticates by an active row of that
hash, with the row's column policy. -/
theorem of_mem_mergePrincipals {noise : EdgeNoise} {rows : List LoadedRow} {env : EnvKeys}
    {k : String} {p : Principal} (h : (k, p) ∈ mergePrincipals noise rows env)
    (hrow : k ∈ rows.map (·.row.keySha256)) :
    ∃ r ∈ rows, r.row.keySha256 = k ∧ r.row.active = true ∧
      p.deniedColumns = normalizeDeniedEntries noise r.row.deniedColumns := by
  rw [mergePrincipals, List.mem_append] at h
  rcases h with hdb | henv
  · obtain ⟨r, hr, heq⟩ := List.mem_map.mp hdb
    obtain ⟨hmem, hactive⟩ := List.mem_filter.mp hr
    cases heq
    exact ⟨r, hmem, rfl, hactive, rfl⟩
  · have hno := (List.mem_filter.mp henv).2
    rw [decide_eq_true_eq] at hno
    exact absurd hrow hno

/-- With no rows at all the merge is the environment's keys. -/
@[simp] theorem mergePrincipals_nil (noise : EdgeNoise) (env : EnvKeys) :
    mergePrincipals noise [] env = env := by
  simp [mergePrincipals]

theorem map_joinRows (keys : List KeyRow) (roles : List (String × String)) :
    (joinRows keys roles).map (·.row) = keys := by
  rw [joinRows, List.map_map]
  exact List.map_id _

theorem map_joinRows_key (keys : List KeyRow) (roles : List (String × String)) :
    (joinRows keys roles).map (·.row.keySha256) = keys.map (·.keySha256) := by
  rw [joinRows, List.map_map]
  rfl

/-! ## Calls one at a time -/

/-- Where a principal set was computed from: the tables and the environment, or, when the database
did not answer, the environment alone. -/
inductive LoadOrigin where
  | database (env : EnvKeys)
  | environment (env : EnvKeys)
  deriving DecidableEq

/-- The cache slot. `origin` is bookkeeping for the proofs; the store keeps the other two. -/
structure CachedKeys where
  /-- `_cached_principals`. -/
  principals : PrincipalSet
  /-- `_cached_at`. -/
  cachedAt : Int
  /-- What the set was computed from. -/
  origin : LoadOrigin
  deriving DecidableEq

/-- Whether a cached set is served at `now` (a `ttl` of zero or less never expires). -/
def CachedKeys.fresh (c : CachedKeys) (ttl now : Int) : Bool := ttl ≤ 0 || now - c.cachedAt < ttl

/-- The database and the cache between calls. -/
structure KeyStoreState where
  /-- The tables. -/
  db : KeyDb
  /-- The cache, when it is filled. -/
  cache : Option CachedKeys

/-- One call on the store: `get_active_principals` at a time, with the database up or down and the
environment's keys as they parse then (`none` when malformed), or a mutation. -/
inductive KeyOp where
  | get (now : Int) (up : Bool) (env : Option EnvKeys)
  | mutate (m : KeyMutation) (up : Bool)

section Sequential

variable (noise : EdgeNoise) (ttl : Int)

/-- The cache entry a load produces: `_load_db_rows` yields nothing when the database is down. -/
def loadPrincipals (db : KeyDb) (now : Int) (up : Bool) (env : Option EnvKeys) : CachedKeys :=
  if up then
    ⟨mergePrincipals noise (joinRows db.keys db.roles) (envOrEmpty env), now,
      .database (envOrEmpty env)⟩
  else ⟨mergePrincipals noise [] (envOrEmpty env), now, .environment (envOrEmpty env)⟩

/-- **`get_active_principals`** as one call: the cache entry it returns from. -/
def getActivePrincipals (s : KeyStoreState) (now : Int) (up : Bool) (env : Option EnvKeys) :
    CachedKeys :=
  match s.cache with
  | some c => if c.fresh ttl now then c else loadPrincipals noise s.db now up env
  | none => loadPrincipals noise s.db now up env

/-- One call after the other. A mutation that raises writes nothing and clears nothing. -/
def keyStep (s : KeyStoreState) : KeyOp → Option KeyStoreState
  | .get now up env => some { s with cache := some (getActivePrincipals noise ttl s now up env) }
  | .mutate m up =>
    match if up then m.apply noise s.db else none with
    | some db => some ⟨db, none⟩
    | none => some s

/-- **What a cache entry is worth**: a set loaded from the database is the merge of the tables as
they are now; one loaded in an outage is the environment's keys. -/
def CachedKeys.Sound (db : KeyDb) (c : CachedKeys) : Prop :=
  match c.origin with
  | .database env => c.principals = mergePrincipals noise (joinRows db.keys db.roles) env
  | .environment env => c.principals = env

/-- The cache, when filled, is sound. -/
def CacheSound (s : KeyStoreState) : Prop := ∀ c ∈ s.cache, c.Sound noise s.db

theorem loadPrincipals_sound (db : KeyDb) (now : Int) (up : Bool) (env : Option EnvKeys) :
    (loadPrincipals noise db now up env).Sound noise db := by
  cases up
  · exact mergePrincipals_nil noise (envOrEmpty env)
  · rfl

variable {noise ttl}

theorem getActivePrincipals_sound {s : KeyStoreState} (h : CacheSound noise s) (now : Int)
    (up : Bool) (env : Option EnvKeys) :
    (getActivePrincipals noise ttl s now up env).Sound noise s.db := by
  unfold getActivePrincipals
  split
  · rename_i c hc
    split
    · exact h c (by simp [hc])
    · exact loadPrincipals_sound noise s.db now up env
  · exact loadPrincipals_sound noise s.db now up env

/-- Every call keeps the cache sound: a load stores a sound entry, a mutation clears the slot. -/
theorem keyStep_sound {s s' : KeyStoreState} {op : KeyOp} (h : CacheSound noise s)
    (hstep : keyStep noise ttl s op = some s') : CacheSound noise s' := by
  cases op with
  | get now up env =>
    cases hstep
    rintro c hc
    cases hc
    exact getActivePrincipals_sound h now up env
  | mutate m up =>
    rw [keyStep] at hstep
    split at hstep
    · cases hstep
      exact nofun
    · cases hstep
      exact h

/-- A sound set that came from the database respects every row: what authenticates has an active
row and its column policy, wherever the hash has a row at all. -/
theorem CachedKeys.Sound.respects_rows {db : KeyDb} {c : CachedKeys} {env : EnvKeys}
    (h : c.Sound noise db) (horigin : c.origin = .database env) {k : String} {p : Principal}
    (hp : (k, p) ∈ c.principals) {row : KeyRow} (hrow : row ∈ db.keys) (hk : row.keySha256 = k) :
    row.active = true ∧ p.deniedColumns = normalizeDeniedEntries noise row.deniedColumns := by
  rw [CachedKeys.Sound, horigin] at h
  simp only at h
  rw [h] at hp
  have hmem : k ∈ (joinRows db.keys db.roles).map (·.row.keySha256) := by
    rw [map_joinRows_key]
    exact List.mem_map.mpr ⟨row, hrow, hk⟩
  obtain ⟨r, hr, hrk, hactive, hdenied⟩ := of_mem_mergePrincipals hp hmem
  have hrdb : r.row ∈ db.keys := by
    rw [← map_joinRows db.keys db.roles]
    exact List.mem_map_of_mem hr
  have hsame : r.row = row :=
    List.inj_on_of_nodup_map db.keys_nodup hrdb hrow (hrk.trans hk.symm)
  rw [hsame] at hactive hdenied
  exact ⟨hactive, hdenied⟩

/-- **Revocation over whole runs.** After any calls from an empty cache, the set a call returns
either came from the database, and then no disabled or revoked row's hash is in it and every hash
with a row has the row's column policy; or it came from an outage, and then it is exactly the
environment's keys. -/
theorem getActivePrincipals_of_run {db : KeyDb} {ops : List KeyOp} {s : KeyStoreState}
    (h : run (keyStep noise ttl) ⟨db, none⟩ ops = some s) (now : Int) (up : Bool)
    (env : Option EnvKeys) :
    let c := getActivePrincipals noise ttl s now up env
    (∀ env', c.origin = .database env' → ∀ k p, (k, p) ∈ c.principals →
      ∀ row ∈ s.db.keys, row.keySha256 = k → row.active = true ∧
        p.deniedColumns = normalizeDeniedEntries noise row.deniedColumns) ∧
    ∀ env', c.origin = .environment env' → c.principals = env' := by
  have hsound : CacheSound noise s :=
    (run_eq_some_iff.mp h).invariant (I := CacheSound noise) nofun
      fun _ _ _ hI _ hstep => keyStep_sound hI hstep
  have hc : (getActivePrincipals noise ttl s now up env).Sound noise s.db :=
    getActivePrincipals_sound hsound now up env
  refine ⟨fun env' horigin k p hp row hrow hk => hc.respects_rows horigin hp hrow hk,
    fun env' horigin => ?_⟩
  rw [CachedKeys.Sound, horigin] at hc
  exact hc

end Sequential

/-! ## An outage after a revocation -/

/-- One analyst's key, imported from the environment with a column denied since. -/
def analystDb : KeyDb where
  keys := [⟨"h1", "analyst-1", "Analyst", ["NationalID"], none, none⟩]
  roles := []
  keys_nodup := by decide

/-- The environment's copy of the key, without the denied column. -/
def analystEnv : EnvKeys := [("h1", ⟨"analyst-1", "Analyst", [], ∅⟩)]

/-- The calls of an outage: the key is revoked while the database is up. -/
def revokeThenOutage : List KeyOp := [.mutate (.revokeKey "h1" "t0") true]

/-- **A revoked key authenticates during an outage**, with the environment's policy: after the
revocation the next call finds the database down and returns the environment's copy. -/
theorem revoked_key_returned_in_outage :
    ∃ s, run (keyStep (fun _ => false) 5) ⟨analystDb, none⟩ revokeThenOutage = some s ∧
      (∀ row ∈ s.db.keys, row.revokedAt = some "t0" ∧ row.deniedColumns = ["NationalID"]) ∧
      (getActivePrincipals (fun _ => false) 5 s 1 false (some analystEnv)).principals =
        [("h1", ⟨"analyst-1", "Analyst", [], ∅⟩)] := by
  refine ⟨_, rfl, ?_, rfl⟩
  decide

theorem getActivePrincipals_of_revokeThenOutage :
    ∃ s, run (keyStep (fun _ => false) 5) ⟨analystDb, none⟩ revokeThenOutage = some s ∧
      ∀ env', (getActivePrincipals (fun _ => false) 5 s 1 true (some analystEnv)).origin =
        .database env' → ∀ k p,
          (k, p) ∈ (getActivePrincipals (fun _ => false) 5 s 1 true (some analystEnv)).principals →
          ∀ row ∈ s.db.keys, row.keySha256 = k → row.active = true :=
  ⟨_, rfl, fun env' horigin k p hp row hrow hk =>
    ((@getActivePrincipals_of_run _ _ analystDb revokeThenOutage _ rfl 1 true
      (some analystEnv)).1 env' horigin k p hp row hrow hk).1⟩

end LocalSqlAgent
