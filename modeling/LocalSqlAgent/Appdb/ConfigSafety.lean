import LocalSqlAgent.Appdb.ConfigVersions
import LocalSqlAgent.Lib.Transition

/-! # Who changes the allowlist

`ConfigSafe` says what a configuration call may have done to the table of versions: without the security
capability the active `schema.yaml` stays and no draft is applied, and nobody rewrites the content of a
row. It composes, inserts and updates are `ConfigSafe` under conditions (`ConfigSafe.insert`,
`ConfigSafe.update`), and every outcome of a call meets them. -/

namespace LocalSqlAgent

/-- The text of `schema.yaml` in force: the active version's, the one on disk while there is none. -/
def VersionHistory.allowlist (disk : Bundle) (h : VersionHistory) : String :=
  (h.activeRow.map fun a => a.content .schema).getD (disk .schema)

/-- **What a call leaves as it was**, from the table before to the table after. -/
structure ConfigSafe (disk : Bundle) (actor : Principal) (h h' : VersionHistory) : Prop where
  /-- Without the security capability the active `schema.yaml` is the one there was. -/
  active : ∀ a, h'.activeRow = some a →
    a.content .schema = h.allowlist disk ∨ securityCapability ∈ actor.capabilities
  /-- There is an active version still. -/
  stays : h.activeRow.isSome → h'.activeRow.isSome
  /-- Without the security capability no version that was there is applied. -/
  drafts : securityCapability ∉ actor.capabilities → ∀ r ∈ h.rows, r.status ≠ .applied →
    ∀ r' ∈ h'.rows, r'.versionId = r.versionId → r'.status ≠ .applied
  /-- Every row is kept with its content. -/
  rows : ∀ r ∈ h.rows, ∃ r' ∈ h'.rows, r'.versionId = r.versionId ∧ r'.content = r.content

section ConfigSafe

variable {disk : Bundle} {actor : Principal} {h h' h'' : VersionHistory}

theorem VersionHistory.allowlist_of_activeRow {a : VersionRow} (ha : h.activeRow = some a) :
    h.allowlist disk = a.content .schema := by
  unfold VersionHistory.allowlist
  rw [ha]
  rfl

theorem VersionHistory.allowlist_of_none (hnone : h.activeRow = none) : h.allowlist disk = disk .schema := by
  unfold VersionHistory.allowlist
  rw [hnone]
  rfl

theorem ConfigSafe.refl (disk : Bundle) (actor : Principal) (h : VersionHistory) : ConfigSafe disk actor h h where
  active _ ha := .inl (VersionHistory.allowlist_of_activeRow ha).symm
  stays hsome := hsome
  drafts _ _ hr hstatus _ hr' hid := h.eq_of_versionId hr' hr hid ▸ hstatus
  rows r hr := ⟨r, hr, rfl, rfl⟩

theorem ConfigSafe.trans (h₁ : ConfigSafe disk actor h h') (h₂ : ConfigSafe disk actor h' h'') :
    ConfigSafe disk actor h h'' where
  active a ha := by
    obtain heq | hsecurity := h₂.active a ha
    · cases hmid : h'.activeRow with
      | some b =>
        rw [VersionHistory.allowlist_of_activeRow hmid] at heq
        rw [heq]
        exact h₁.active b hmid
      | none =>
        -- nothing was active in between, hence nothing before
        have hnone : h.activeRow = none := by
          by_contra hsome
          have := h₁.stays (Option.isSome_iff_ne_none.mpr hsome)
          rw [hmid] at this
          cases this
        rw [VersionHistory.allowlist_of_none hmid] at heq
        exact .inl (heq.trans (VersionHistory.allowlist_of_none hnone).symm)
    · exact .inr hsecurity
  stays hsome := h₂.stays (h₁.stays hsome)
  drafts hno r hr hstatus r'' hr'' hid := by
    obtain ⟨r', hr', hid', -⟩ := h₁.rows r hr
    exact h₂.drafts hno r' hr' (h₁.drafts hno r hr hstatus r' hr' hid') r'' hr'' (hid.trans hid'.symm)
  rows r hr := by
    obtain ⟨r', hr', hid', hcontent'⟩ := h₁.rows r hr
    obtain ⟨r'', hr'', hid'', hcontent''⟩ := h₂.rows r' hr'
    exact ⟨r'', hr'', hid''.trans hid', hcontent''.trans hcontent'⟩

/-- Inserting a row is safe when the row is not applied, leaves the allowlist, or comes from a security
administrator. -/
theorem ConfigSafe.insert {new : VersionColumns} (hnew : new.status = .applied →
      new.content .schema = h.allowlist disk ∨ securityCapability ∈ actor.capabilities) :
    ConfigSafe disk actor h (h.insert new) where
  active a ha := by
    by_cases happlied : new.status = .applied
    · rw [VersionHistory.activeRow_insert_applied happlied] at ha
      cases ha
      exact hnew happlied
    · rw [VersionHistory.activeRow_insert_of_ne happlied] at ha
      exact (ConfigSafe.refl disk actor h).active a ha
  stays hsome := by
    obtain ⟨r, hr, happlied⟩ := VersionHistory.isSome_activeRow.mp hsome
    exact VersionHistory.isSome_activeRow.mpr ⟨r, List.mem_cons_of_mem _ hr, happlied⟩
  drafts hno r hr hstatus r' hr' hid := by
    obtain rfl | hr' := List.mem_cons.mp hr'
    · have := h.lt_nextId r hr
      dsimp only at hid
      omega
    · exact (ConfigSafe.refl disk actor h).drafts hno r hr hstatus r' hr' hid
  rows r hr := ⟨r, List.mem_cons_of_mem _ hr, rfl, rfl⟩

/-- Rewriting a row is safe when it keeps the content, keeps an applied row applied, and either keeps the
status or comes from a security administrator. -/
theorem ConfigSafe.update {versionId : ℕ} {f : VersionColumns → VersionColumns}
    (hcontent : ∀ c, (f c).content = c.content)
    (hkept : ∀ r ∈ h.rows, r.versionId = versionId → r.status = .applied → (f r.toVersionColumns).status = .applied)
    (hstatus : securityCapability ∈ actor.capabilities ∨
      ∀ r ∈ h.rows, r.versionId = versionId → (f r.toVersionColumns).status = r.status) :
    ConfigSafe disk actor h (h.update versionId f) where
  active a ha := by
    obtain hsecurity | hstatus := hstatus
    · exact .inr hsecurity
    · rw [VersionHistory.activeRow_update fun r hr hid => by rw [hstatus r hr hid], Option.map_eq_some_iff] at ha
      obtain ⟨b, hb, rfl⟩ := ha
      rw [VersionHistory.allowlist_of_activeRow hb]
      split
      · exact .inl (congrFun (hcontent b.toVersionColumns) _)
      · exact .inl rfl
  stays hsome := by
    obtain ⟨r, hr, happlied⟩ := VersionHistory.isSome_activeRow.mp hsome
    refine VersionHistory.isSome_activeRow.mpr ⟨_, VersionHistory.mem_update hr, ?_⟩
    split
    · exact hkept r hr ‹_› happlied
    · exact happlied
  drafts hno r hr hunapplied r' hr' hid := by
    obtain hsecurity | hstatus := hstatus
    · exact absurd hsecurity hno
    · obtain ⟨r₀, hr₀, rfl⟩ := List.mem_map.mp hr'
      have hsame : r₀ = r := h.eq_of_versionId hr₀ hr (by split at hid <;> exact hid)
      subst hsame
      split
      · exact (hstatus r₀ hr₀ ‹_›).symm ▸ hunapplied
      · exact hunapplied
  rows r hr := by
    refine ⟨_, VersionHistory.mem_update hr, ?_⟩
    split
    · exact ⟨rfl, hcontent _⟩
    · exact ⟨rfl, rfl⟩

/-- The bootstrap row has the allowlist on disk. -/
theorem ensureBootstrapped_safe : ConfigSafe disk actor h (ensureBootstrapped disk h) := by
  unfold ensureBootstrapped
  split
  · rename_i hempty
    refine ConfigSafe.insert fun _ => .inl ?_
    have hnone : h.activeRow = none := by
      unfold VersionHistory.activeRow
      rw [List.isEmpty_iff.mp hempty]
      rfl
    rw [VersionHistory.allowlist_of_none hnone]
    rfl
  · exact ConfigSafe.refl disk actor h

/-- A proposal that is applied keeps `schema.yaml` or is a security administrator's. -/
theorem schema_of_proposal {checks : ConfigChecks} {active : VersionRow} {files : ConfigRequest} {basedOn : ℕ}
    {new : VersionColumns} (hnew : proposal checks active files basedOn actor = .ok new)
    (happlied : new.status = .applied) :
    new.content .schema = active.content .schema ∨ securityCapability ∈ actor.capabilities := by
  unfold proposal at hnew
  split at hnew
  · cases hnew
  · dsimp only at hnew
    split at hnew
    · cases hnew
    · cases hnew
      dsimp only at happlied ⊢
      by_contra hbad
      push Not at hbad
      obtain ⟨hchanged, hno⟩ := hbad
      rw [if_pos ⟨mem_filesChanged.mpr (Ne.symm hchanged), hno⟩] at happlied
      cases happlied

/-- A stamp changes neither status nor content. -/
theorem stamp_safe (call : ConfigCall) (versionId : ℕ) : ConfigSafe disk actor h (call.stamp versionId h) := by
  cases call with
  | restore fromVersionId filename =>
    exact ConfigSafe.update (fun _ => rfl) (fun _ _ _ happlied => happlied) (.inr fun _ _ _ => rfl)
  | _ => exact ConfigSafe.refl disk actor h

/-- Every outcome of a call is safe. -/
theorem Committed.safe {checks : ConfigChecks} {l : ConfigLabel} {o : ConfigOutcome}
    (ho : Committed checks l h o) : ConfigSafe l.disk l.actor h o.1 := by
  cases ho with
  | refused e => exact ConfigSafe.refl _ _ _
  | refusedLate e => exact ensureBootstrapped_safe
  | read versionId => exact ensureBootstrapped_safe
  | saved hactive hnew =>
    refine ensureBootstrapped_safe.trans (ConfigSafe.insert fun happlied => ?_)
    rw [VersionHistory.allowlist_of_activeRow hactive]
    exact schema_of_proposal hnew happlied
  | approved hsecurity => exact ConfigSafe.update (fun _ => rfl) (fun _ _ _ _ => rfl) (.inl hsecurity)
  | @rejected draft reason hsecurity hdraft hstatus =>
    -- what is rejected was a draft: no applied row is taken back
    refine ConfigSafe.update (fun _ => rfl) (fun r hr hid happlied => ?_) (.inl hsecurity)
    have hsame : r = draft := h.eq_of_versionId hr hdraft hid
    rw [hsame, hstatus] at happlied
    cases happlied

/-- Every request is safe. -/
theorem handle_safe (checks : ConfigChecks) (l : ConfigLabel) (h : VersionHistory) :
    ConfigSafe l.disk l.actor h (handle checks l h).1 := by
  have hsafe := (commit_committed checks l h).safe
  unfold handle
  split
  · rename_i h' e heq
    rwa [heq] at hsafe
  · rename_i h' result heq
    rw [heq] at hsafe
    exact hsafe.trans (stamp_safe l.call _)

end ConfigSafe

/-- **Only security administrators change the allowlist**: every sequence of requests runs to its end,
and each of them is `ConfigSafe`. -/
theorem configRuns_safe (checks : ConfigChecks) (h : VersionHistory) (calls : List ConfigLabel) :
    RunWhere (configStep checks) (fun h l => ConfigSafe l.disk l.actor h (handle checks l h).1) h calls
      (calls.foldl (fun h l => (handle checks l h).1) h) := by
  induction calls generalizing h with
  | nil => exact .nil h
  | cons l calls ih => exact .cons (handle_safe checks l h) rfl (ih _)

end LocalSqlAgent
