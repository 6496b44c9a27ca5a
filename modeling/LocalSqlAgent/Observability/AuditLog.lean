import Mathlib
import LocalSqlAgent.Database.Routing
import LocalSqlAgent.Lib.Generations
import LocalSqlAgent.Lib.OrderedDict
import LocalSqlAgent.Lib.Transition

/-! # The audit log

`logs.logger.append_jsonl` writes a record as one line, rotating the file first when the line would take
it over `max_bytes`: `path` becomes `path.1`, `path.1` becomes `path.2`, and so on up to `backup_count`.
`observability.audit.find_record_by_turn` reads every file whose name starts with `path`, in the order of
the names, and keeps the last record of the turn.

* **`holds_appendJsonl`**: on the files in their generations, an append is `Generations.push`.
* **`boundedQueue_of_run`**: whatever is appended, what is retained is a suffix of it, in at most
  `backup_count` rotated files, none over `max_bytes` but for a single record.
* **`readsBack_of_run`**: the last retained record of a turn is found in every run that never appends a
  record of a turn while another file keeps one of it. The active file is the newest and its name the
  first, so its records are read before those of every rotated file. -/

namespace LocalSqlAgent

universe u

variable {ρ : Type u}

/-- What the log reads of a record. -/
structure LineFormat (ρ : Type u) where
  /-- The bytes of `json.dumps(payload, ensure_ascii=False) + "\n"` in UTF-8. -/
  lineSize : ρ → ℕ
  /-- The string `record.get(key)` is, `none` when it is none. -/
  get : ρ → String → Option String

/-- The files of the log's directory, with the records of their lines. -/
abbrev LogDirectory (ρ : Type u) := OrderedDict String (List ρ)

/-- `f"{path}.{generation}"`. -/
def rotatedPath (path : String) (generation : ℕ) : String := path ++ "." ++ generation.repr

/-- The file of a generation, the active one being generation `0`. -/
def generationPath (path : String) : ℕ → String
  | 0 => path
  | g + 1 => rotatedPath path (g + 1)

/-- `os.path.getsize`. -/
def LineFormat.fileSize (fmt : LineFormat ρ) (lines : List ρ) : ℕ := (lines.map fmt.lineSize).sum

/-- `if os.path.exists(src): os.replace(src, dst)`. -/
def replaceFile (dir : LogDirectory ρ) (src dst : String) : LogDirectory ρ :=
  match dir.lookup src with
  | some lines => (dir.erase src).insert dst lines
  | none => dir

/-- `for generation in range(n, 0, -1)`: each file to the name of the next generation. -/
def shiftGenerations (path : String) : ℕ → LogDirectory ρ → LogDirectory ρ
  | 0, dir => dir
  | g + 1, dir => shiftGenerations path g (replaceFile dir (rotatedPath path (g + 1)) (rotatedPath path (g + 2)))

/-- `_rotate`. -/
def rotate (path : String) (backupCount : ℤ) (dir : LogDirectory ρ) : LogDirectory ρ :=
  if backupCount ≤ 0 then dir.erase path
  else
    let withoutOldest := dir.erase (rotatedPath path backupCount.toNat)
    let shifted := shiftGenerations path (backupCount.toNat - 1) withoutOldest
    replaceFile shifted path (rotatedPath path 1)

/-- `resolve_log_paths([f"{log_path}*"])`. -/
def resolveLogPaths (path : String) (dir : LogDirectory ρ) : List String :=
  sortedStrings (dir.keys.filter fun name => path.toList.isPrefixOf name.toList)

/-- `iter_records`. -/
def iterRecords (dir : LogDirectory ρ) (paths : List String) : List ρ :=
  paths.flatMap fun name => (dir.lookup name).getD []

namespace LineFormat

variable (fmt : LineFormat ρ) (path : String) (maxBytes backupCount : ℤ)

/-- Whether the line takes the active file over `max_bytes`. -/
def needsRotation (dir : LogDirectory ρ) (payload : ρ) : Bool :=
  match dir.lookup path with
  | some lines => decide (0 < maxBytes ∧ maxBytes < fmt.fileSize lines + fmt.lineSize payload)
  | none => false

/-- `append_jsonl`. -/
def appendJsonl (dir : LogDirectory ρ) (payload : ρ) : LogDirectory ρ :=
  let dir := if fmt.needsRotation path maxBytes dir payload then rotate path backupCount dir else dir
  dir.insert path ((dir.lookup path).getD [] ++ [payload])

/-- A record of the turn. -/
def OfTurn (sessionId turnId : String) (r : ρ) : Prop :=
  fmt.get r "session_id" = some sessionId ∧ fmt.get r "turn_id" = some turnId

instance (sessionId turnId : String) : DecidablePred (fmt.OfTurn sessionId turnId) := fun _ =>
  inferInstanceAs (Decidable (_ ∧ _))

/-- `find_record_by_turn`. -/
def findRecordByTurn (dir : LogDirectory ρ) (sessionId turnId : String) : Option ρ :=
  lastMatch (fmt.OfTurn sessionId turnId) (iterRecords dir (resolveLogPaths path dir))

end LineFormat

/-! ## Names -/

theorem generationPath_inj {path : String} {g h : ℕ} (heq : generationPath path g = generationPath path h) :
    g = h := by
  have hlength : ∀ n, path ≠ rotatedPath path n := fun n hpath => by
    have := congrArg String.length hpath
    rw [rotatedPath, String.length_append, String.length_append] at this
    have hdot : ".".length = 1 := rfl
    omega
  cases g with
  | zero =>
    cases h with
    | zero => rfl
    | succ h => exact absurd heq (hlength _)
  | succ g =>
    cases h with
    | zero => exact absurd heq.symm (hlength _)
    | succ h => exact Nat.repr_injective (String.append_right_inj _ |>.mp heq)

theorem generationPath_ne {path : String} {g h : ℕ} (hne : g ≠ h) :
    generationPath path g ≠ generationPath path h := fun heq => hne (generationPath_inj heq)

/-- Every file of the log has a name that starts with the path. -/
theorem isPrefixOf_generationPath (path : String) (g : ℕ) :
    path.toList.isPrefixOf (generationPath path g).toList = true := by
  refine List.isPrefixOf_iff_prefix.mpr ?_
  cases g with
  | zero => exact List.prefix_rfl
  | succ g =>
    rw [generationPath, rotatedPath, String.toList_append, String.toList_append, List.append_assoc]
    exact List.prefix_append _ _

/-! ## Rotation -/

section Rotation

variable {path : String} {dir : LogDirectory ρ}

/-- **Moving a file** to a name that is free. -/
theorem lookup_replaceFile {g h : ℕ} (hfree : dir.lookup (generationPath path h) = none) (j : ℕ) :
    (replaceFile dir (generationPath path g) (generationPath path h)).lookup (generationPath path j) =
      if j = h then dir.lookup (generationPath path g)
      else if j = g then none else dir.lookup (generationPath path j) := by
  unfold replaceFile
  cases hsrc : dir.lookup (generationPath path g) with
  | none =>
    show dir.lookup _ = _
    split
    · rename_i hj
      rw [hj, hfree]
    · split
      · rename_i hj
        rw [hj, hsrc]
      · rfl
  | some lines =>
    show AList.lookup _ (AList.insert (generationPath path h) lines (dir.erase (generationPath path g))) = _
    split
    · rename_i hj
      rw [hj, AList.lookup_insert]
    · rename_i hj
      rw [AList.lookup_insert_ne (generationPath_ne hj)]
      split
      · rename_i hj
        rw [hj, AList.lookup_erase]
      · rename_i hj
        exact AList.lookup_erase_ne (generationPath_ne hj)

/-- **The loop**: the name above the range is free, and every file of the range moves up by one. -/
theorem lookup_shiftGenerations {n : ℕ} (hfree : dir.lookup (generationPath path (n + 1)) = none) (j : ℕ) :
    (shiftGenerations path n dir).lookup (generationPath path j) =
      if j = 1 then none
      else if 1 < j ∧ j ≤ n + 1 then dir.lookup (generationPath path (j - 1))
      else dir.lookup (generationPath path j) := by
  induction n generalizing dir with
  | zero =>
    show dir.lookup _ = _
    split
    · rename_i hj
      rw [hj, hfree]
    · rw [if_neg (by omega)]
  | succ n ih =>
    have hmove := @lookup_replaceFile _ path dir (n + 1) (n + 2) hfree
    have hnext := hmove (n + 1)
    rw [if_neg (by omega), if_pos rfl] at hnext
    refine (ih hnext).trans ?_
    split
    · rfl
    · by_cases hrange : 1 < j ∧ j ≤ n + 1
      · rw [if_pos hrange, if_pos (by omega), hmove, if_neg (by omega), if_neg (by omega)]
      · rw [if_neg hrange, hmove]
        split
        · rename_i hj
          rw [if_pos (by omega), hj]
          rfl
        · rw [if_neg (by omega : ¬ j = n + 1), if_neg (by omega)]

/-- **`_rotate`**: the active name is free, and the files move up by one, the oldest dropped. -/
theorem lookup_rotate (backupCount : ℤ) (j : ℕ) :
    (rotate path backupCount dir).lookup (generationPath path j) =
      if j = 0 then none
      else if j ≤ backupCount.toNat then dir.lookup (generationPath path (j - 1))
      else dir.lookup (generationPath path j) := by
  unfold rotate
  split
  · rename_i hnone
    split
    · rename_i hj
      rw [hj]
      exact AList.lookup_erase _ _
    · rename_i hj
      rw [if_neg (by omega)]
      exact AList.lookup_erase_ne (generationPath_ne hj)
  · rename_i hsome
    obtain ⟨n, hn⟩ : ∃ n, backupCount.toNat = n + 1 := ⟨backupCount.toNat - 1, by omega⟩
    rw [hn]
    have hfree : (dir.erase (rotatedPath path (n + 1))).lookup (generationPath path (n + 1)) = none :=
      AList.lookup_erase _ _
    have hshift := lookup_shiftGenerations hfree
    have hfirst : (shiftGenerations path n (dir.erase (rotatedPath path (n + 1)))).lookup
        (generationPath path 1) = none := by rw [hshift, if_pos rfl]
    have hkept : ∀ i, i ≠ n + 1 → (dir.erase (rotatedPath path (n + 1))).lookup (generationPath path i) =
        dir.lookup (generationPath path i) := fun i hi =>
      AList.lookup_erase_ne (generationPath_ne (h := n + 1) hi)
    refine (lookup_replaceFile (g := 0) (h := 1) hfirst j).trans ?_
    split
    · rename_i hj
      rw [hj, hshift, if_neg (by omega), if_neg (by omega), if_neg (by omega), if_pos (by omega)]
      exact hkept 0 (by omega)
    · split
      · rfl
      · rw [hshift, if_neg (by omega)]
        by_cases hle : j ≤ n + 1
        · rw [if_pos (by omega), if_pos hle, hkept _ (by omega)]
        · rw [if_neg (by omega), if_neg hle, hkept _ (by omega)]

/-- A move leaves no other names than those there were and the new one. -/
theorem mem_replaceFile {src dst name : String} (h : name ∈ replaceFile dir src dst) :
    name = dst ∨ name ∈ dir := by
  unfold replaceFile at h
  split at h
  · obtain h | h := (AList.mem_insert _).mp h
    · exact .inl h
    · exact .inr (AList.mem_erase.mp h).2
  · exact .inr h

theorem mem_shiftGenerations {n : ℕ} {name : String} (h : name ∈ shiftGenerations path n dir) :
    name ∈ dir ∨ ∃ g, name = generationPath path g := by
  induction n generalizing dir with
  | zero => exact .inl h
  | succ n ih =>
    obtain h | h := ih h
    · obtain h | h := mem_replaceFile h
      · exact .inr ⟨n + 2, h⟩
      · exact .inl h
    · exact .inr h

/-- Rotation makes no file that is not a generation of the log. -/
theorem mem_rotate {backupCount : ℤ} {name : String} (h : name ∈ rotate path backupCount dir) :
    name ∈ dir ∨ ∃ g, name = generationPath path g := by
  unfold rotate at h
  split at h
  · exact .inl (AList.mem_erase.mp h).2
  · obtain h | h := mem_replaceFile h
    · exact .inr ⟨1, h⟩
    · exact (mem_shiftGenerations h).imp_left fun h => (AList.mem_erase.mp h).2

end Rotation

/-! ## The files in their generations -/

/-- **The directory holds these files**, newest first, each under the name of its generation, and no
other. -/
structure Holds (path : String) (dir : LogDirectory ρ) (files : List (List ρ)) : Prop where
  lookup : ∀ g, dir.lookup (generationPath path g) = files[g]?
  named : ∀ name ∈ dir, ∃ g, name = generationPath path g

theorem holds_empty (path : String) : Holds path (∅ : LogDirectory ρ) [] where
  lookup _ := rfl
  named _ h := absurd h (AList.notMem_empty _)

namespace Holds

variable {path : String} {dir : LogDirectory ρ} {files : List (List ρ)}

theorem exists_lt (h : Holds path dir files) {name : String} (hname : name ∈ dir) :
    ∃ g < files.length, name = generationPath path g := by
  obtain ⟨g, rfl⟩ := h.named name hname
  refine ⟨g, ?_, rfl⟩
  by_contra hge
  have hnone := h.lookup g
  rw [List.getElem?_eq_none (by omega)] at hnone
  exact AList.lookup_eq_none.mp hnone hname

/-- The names there are. -/
theorem keys_perm (h : Holds path dir files) :
    dir.keys.Perm ((List.range files.length).map (generationPath path)) := by
  refine (List.perm_ext_iff_of_nodup dir.keys_nodup ?_).mpr fun name => ?_
  · exact List.nodup_range.map fun _ _ => generationPath_inj
  · constructor
    · intro hname
      obtain ⟨g, hg, rfl⟩ := h.exists_lt hname
      exact List.mem_map.mpr ⟨g, List.mem_range.mpr hg, rfl⟩
    · intro hname
      obtain ⟨g, hg, rfl⟩ := List.mem_map.mp hname
      refine AList.lookup_isSome.mp ?_
      rw [h.lookup, List.getElem?_eq_getElem (List.mem_range.mp hg)]
      rfl

/-- **The names read back** are the names there are. -/
theorem resolveLogPaths_perm (h : Holds path dir files) :
    (resolveLogPaths path dir).Perm ((List.range files.length).map (generationPath path)) := by
  refine (List.perm_insertionSort _ _).trans ?_
  rw [List.filter_eq_self.mpr fun name hname => ?_]
  · exact h.keys_perm
  · obtain ⟨g, rfl⟩ := h.named name hname
    exact isPrefixOf_generationPath path g

end Holds

/-- Looking the generations up in turn gives the files. -/
theorem map_getD_range (files : List (List ρ)) :
    (List.range files.length).map (fun g => files[g]?.getD []) = files := by
  refine List.ext_getElem (by rw [List.length_map, List.length_range]) fun g h₁ h₂ => ?_
  rw [List.getElem_map, List.getElem_range, List.getElem?_eq_getElem h₂, Option.getD_some]

/-- Generations beyond the last file hold nothing. -/
theorem content_map_range (files : List (List ρ)) {n : ℕ} (h : files.length ≤ n) :
    Generations.content ((List.range n).map fun g => files[g]?.getD []) = Generations.content files := by
  induction n with
  | zero =>
    obtain rfl := List.length_eq_zero_iff.mp (Nat.le_zero.mp h)
    rfl
  | succ n ih =>
    obtain hlt | heq := Nat.lt_or_eq_of_le h
    · rw [List.range_succ, List.map_append, Generations.content, List.reverse_append, List.flatten_append,
        List.map_singleton, List.getElem?_eq_none (by omega)]
      exact ih (by omega)
    · rw [← heq, map_getD_range]

namespace LineFormat

variable (fmt : LineFormat ρ) (path : String) (maxBytes backupCount : ℤ)

/-- **The retained records**, in the order of their files from the oldest generation to the active file. -/
def retained (n : ℕ) (dir : LogDirectory ρ) : List ρ :=
  Generations.content ((List.range (n + 1)).map fun g => (dir.lookup (generationPath path g)).getD [])

variable {fmt path maxBytes backupCount} {dir : LogDirectory ρ} {files : List (List ρ)}

theorem retained_eq {n : ℕ} (h : Holds path dir files) (hlength : files.length ≤ n + 1) :
    retained path n dir = Generations.content files := by
  rw [retained, ← content_map_range files hlength]
  simp only [h.lookup]

/-- Whether the files as they stand make an append rotate. -/
theorem needsRotation_eq (h : Holds path dir files) (payload : ρ) :
    fmt.needsRotation path maxBytes dir payload =
      match files.head? with
      | some lines => decide (0 < maxBytes ∧ maxBytes < fmt.fileSize lines + fmt.lineSize payload)
      | none => false := by
  have hactive : dir.lookup path = files.head? := (h.lookup 0).trans List.head?_eq_getElem?.symm
  rw [needsRotation, hactive]

/-- **An append is a push** onto the files in their generations. -/
theorem holds_appendJsonl (h : Holds path dir files) (hlength : files.length ≤ backupCount.toNat + 1)
    (payload : ρ) :
    Holds path (fmt.appendJsonl path maxBytes backupCount dir payload)
      (Generations.push backupCount.toNat (fmt.needsRotation path maxBytes dir payload) payload files) := by
  have hkeys : ∀ name ∈ fmt.appendJsonl path maxBytes backupCount dir payload,
      ∃ g, name = generationPath path g := by
    intro name hname
    obtain hname | hname := (AList.mem_insert _).mp hname
    · exact ⟨0, hname⟩
    · split at hname
      · obtain hname | hname := mem_rotate hname
        · exact h.named name hname
        · exact hname
      · exact h.named name hname
  refine ⟨fun g => ?_, hkeys⟩
  cases files with
  | nil =>
    -- No file yet: nothing rotates.
    have hstill : fmt.needsRotation path maxBytes dir payload = false := needsRotation_eq h payload
    have hactive : dir.lookup path = none := h.lookup 0
    rw [appendJsonl, hstill, if_neg Bool.false_ne_true, hactive, Generations.push]
    cases g with
    | zero => exact AList.lookup_insert _
    | succ g =>
      refine (AList.lookup_insert_ne (generationPath_ne (h := 0) (Nat.succ_ne_zero g))).trans ?_
      exact h.lookup (g + 1)
  | cons newest older =>
    cases hrotates : fmt.needsRotation path maxBytes dir payload with
    | true =>
      have hactive : (rotate path backupCount dir).lookup path = none := lookup_rotate backupCount 0
      rw [appendJsonl, hrotates, if_pos rfl, hactive, Generations.push, if_pos rfl]
      cases g with
      | zero => exact AList.lookup_insert _
      | succ g =>
        refine (AList.lookup_insert_ne (generationPath_ne (h := 0) (Nat.succ_ne_zero g))).trans ?_
        rw [lookup_rotate, if_neg (Nat.succ_ne_zero g), List.getElem?_cons_succ, List.getElem?_take]
        by_cases hg : g + 1 ≤ backupCount.toNat
        · rw [if_pos hg, if_pos (by omega)]
          exact h.lookup g
        · rw [if_neg hg, if_neg (by omega), h.lookup (g + 1), List.getElem?_eq_none (by omega)]
    | false =>
      have hactive : dir.lookup path = some newest := h.lookup 0
      rw [appendJsonl, hrotates, if_neg Bool.false_ne_true, hactive, Generations.push,
        if_neg Bool.false_ne_true]
      cases g with
      | zero => exact AList.lookup_insert _
      | succ g =>
        refine (AList.lookup_insert_ne (generationPath_ne (h := 0) (Nat.succ_ne_zero g))).trans ?_
        exact h.lookup (g + 1)

/-- **The lookup on the files**: the matches as the names order the files. -/
theorem findRecordByTurn_eq (h : Holds path dir files) (sessionId turnId : String)
    (hone : Generations.OneFile files (fmt.OfTurn sessionId turnId)) :
    fmt.findRecordByTurn path dir sessionId turnId =
      ((Generations.content files).filter (fmt.OfTurn sessionId turnId ·)).getLast? := by
  have hread : ((resolveLogPaths path dir).map fun name => (dir.lookup name).getD []).Perm files := by
    have hmap := h.resolveLogPaths_perm.map fun name => (dir.lookup name).getD []
    rw [List.map_map] at hmap
    have hfiles : (List.range files.length).map ((fun name => (dir.lookup name).getD []) ∘ generationPath path) =
        files := by
      refine Eq.trans (List.map_congr_left fun g _ => ?_) (map_getD_range files)
      rw [Function.comp_apply, h.lookup]
    rwa [hfiles] at hmap
  have horder := filter_flatten_of_perm (hread.trans (List.reverse_perm files).symm)
    ((List.Perm.pairwise_iff (fun h => h.symm) hread).mpr hone)
  rw [findRecordByTurn, lastMatch_eq, iterRecords, List.flatMap, horder, Generations.content]

/-! ## Runs -/

variable (fmt path maxBytes backupCount)

/-- One call of `append_jsonl`. -/
def appendStep (dir : LogDirectory ρ) (payload : ρ) : Option (LogDirectory ρ) :=
  some (fmt.appendJsonl path maxBytes backupCount dir payload)

/-- The files an append keeps beside the one it writes. -/
def keptAside (dir : LogDirectory ρ) (payload : ρ) : List (List ρ) :=
  if fmt.needsRotation path maxBytes dir payload then
    (List.range backupCount.toNat).map fun g => (dir.lookup (generationPath path g)).getD []
  else (dir.keys.filter (· ≠ path)).map fun name => (dir.lookup name).getD []

/-- A record of the payload's turn. -/
def SameTurn (payload r : ρ) : Prop :=
  (fmt.get payload "session_id").isSome ∧ (fmt.get payload "turn_id").isSome ∧
    fmt.get r "session_id" = fmt.get payload "session_id" ∧ fmt.get r "turn_id" = fmt.get payload "turn_id"

instance (payload r : ρ) : Decidable (fmt.SameTurn payload r) := inferInstanceAs (Decidable (_ ∧ _))

/-- **No file kept aside holds a record of the payload's turn.** -/
def TurnInOneFile (dir : LogDirectory ρ) (payload : ρ) : Prop :=
  ∀ lines ∈ fmt.keptAside path maxBytes backupCount dir payload, ∀ r ∈ lines, ¬ fmt.SameTurn payload r

instance (dir : LogDirectory ρ) (payload : ρ) :
    Decidable (fmt.TurnInOneFile path maxBytes backupCount dir payload) :=
  inferInstanceAs (Decidable (∀ _ ∈ _, _))

/-- **A bounded queue** of the records appended. -/
structure BoundedQueue (records : List ρ) (dir : LogDirectory ρ) : Prop where
  suffix : retained path backupCount.toNat dir <:+ records
  generations : ∀ name ∈ dir, ∃ g ≤ backupCount.toNat, name = generationPath path g
  size : ∀ name lines, dir.lookup name = some lines → fmt.fileSize lines ≤ maxBytes ∨ lines.length = 1
  rotated : (dir.keys.filter (· ≠ path)).length ≤ backupCount.toNat

/-- **The last retained record of every turn is found.** -/
def ReadsBack (dir : LogDirectory ρ) : Prop :=
  ∀ sessionId turnId, fmt.findRecordByTurn path dir sessionId turnId =
    ((retained path backupCount.toNat dir).filter (fmt.OfTurn sessionId turnId ·)).getLast?

variable {fmt path maxBytes backupCount}

/-- The files kept aside are the untouched ones. -/
theorem untouched_subset_keptAside (h : Holds path dir files) (payload : ρ) {lines : List ρ}
    (hlines : lines ∈ Generations.untouched backupCount.toNat (fmt.needsRotation path maxBytes dir payload) files) :
    lines ∈ fmt.keptAside path maxBytes backupCount dir payload := by
  unfold Generations.untouched at hlines
  unfold keptAside
  cases hrotates : fmt.needsRotation path maxBytes dir payload with
  | true =>
    rw [hrotates, if_pos rfl] at hlines
    obtain ⟨g, hg, rfl⟩ := List.mem_iff_getElem.mp hlines
    rw [List.length_take] at hg
    rw [if_pos rfl]
    refine List.mem_map.mpr ⟨g, List.mem_range.mpr (by omega), ?_⟩
    rw [h.lookup, List.getElem?_eq_getElem (by omega), List.getElem_take, Option.getD_some]
  | false =>
    rw [hrotates, if_neg Bool.false_ne_true] at hlines
    obtain ⟨g, hg, rfl⟩ := List.mem_iff_getElem.mp hlines
    rw [List.length_tail] at hg
    have hlookup : dir.lookup (generationPath path (g + 1)) = some files[g + 1] := by
      rw [h.lookup, List.getElem?_eq_getElem (by omega)]
    rw [if_neg Bool.false_ne_true]
    refine List.mem_map.mpr ⟨generationPath path (g + 1), List.mem_filter.mpr ⟨?_, ?_⟩, ?_⟩
    · refine AList.lookup_isSome.mp ?_
      rw [hlookup]
      rfl
    · exact decide_eq_true (generationPath_ne (h := 0) (Nat.succ_ne_zero g))
    · rw [hlookup, Option.getD_some, List.getElem_tail]

/-- **One append that meets the condition** leaves every turn in one file. -/
theorem oneFile_push (h : Holds path dir files) {payload : ρ}
    (hfresh : fmt.TurnInOneFile path maxBytes backupCount dir payload)
    (hone : ∀ s t, Generations.OneFile files (fmt.OfTurn s t)) (s t : String) :
    Generations.OneFile (Generations.push backupCount.toNat (fmt.needsRotation path maxBytes dir payload)
      payload files) (fmt.OfTurn s t) := by
  refine (hone s t).push fun hpayload lines hlines r hr hmatch => ?_
  refine hfresh lines (untouched_subset_keptAside h payload hlines) r hr ?_
  refine ⟨?_, ?_, hmatch.1.trans hpayload.1.symm, hmatch.2.trans hpayload.2.symm⟩
  · rw [hpayload.1]
    rfl
  · rw [hpayload.2]
    rfl

/-- **One append** keeps every file within the bound but for a single record. -/
theorem size_push (h : Holds path dir files) (hmax : 0 < maxBytes) {payload : ρ}
    (hsize : ∀ lines ∈ files, fmt.fileSize lines ≤ maxBytes ∨ lines.length = 1) :
    ∀ lines ∈ Generations.push backupCount.toNat (fmt.needsRotation path maxBytes dir payload) payload files,
      fmt.fileSize lines ≤ maxBytes ∨ lines.length = 1 := by
  refine Generations.forall_mem_push hsize (.inr rfl) fun newest hnewest hstill => .inl ?_
  rw [needsRotation_eq h, hnewest] at hstill
  have hfits := of_decide_eq_false hstill
  rw [fileSize, List.map_append, List.sum_append, List.map_singleton, List.sum_singleton]
  rw [fileSize] at hfits
  push Not at hfits
  exact_mod_cast hfits hmax

/-- **Every run** leaves the log's files in their generations, with a suffix of what was there and what
was appended. -/
theorem exists_holds_of_run {P : LogDirectory ρ → ρ → Prop} {dir' : LogDirectory ρ} {records : List ρ}
    (hrun : RunWhere (fmt.appendStep path maxBytes backupCount) P dir records dir') (h : Holds path dir files)
    (hlength : files.length ≤ backupCount.toNat + 1) :
    ∃ files', Holds path dir' files' ∧ files'.length ≤ backupCount.toNat + 1 ∧
      Generations.content files' <:+ Generations.content files ++ records := by
  induction hrun generalizing files with
  | nil dir => exact ⟨files, h, hlength, by rw [List.append_nil]⟩
  | @cons dir dir₁ dir' payload records hP hstep hrest ih =>
    cases hstep
    have hpush := Generations.length_push_le hlength (fmt.needsRotation path maxBytes dir payload) payload
    obtain ⟨files', hholds, hlength', hsuffix⟩ := ih (holds_appendJsonl h hlength payload) hpush
    refine ⟨files', hholds, hlength', hsuffix.trans ?_⟩
    obtain ⟨dropped, hdropped⟩ := Generations.content_push backupCount.toNat
      (fmt.needsRotation path maxBytes dir payload) payload files
    refine ⟨dropped, ?_⟩
    rw [← List.append_assoc, hdropped, List.append_assoc, List.singleton_append]

/-- What every append keeps of the files, every run keeps. -/
theorem exists_holds_and_of_run {P : LogDirectory ρ → ρ → Prop} {I : List (List ρ) → Prop}
    {dir' : LogDirectory ρ} {records : List ρ}
    (hrun : RunWhere (fmt.appendStep path maxBytes backupCount) P ∅ records dir') (hnil : I [])
    (hpush : ∀ dir files payload, Holds path dir files → P dir payload → I files →
      I (Generations.push backupCount.toNat (fmt.needsRotation path maxBytes dir payload) payload files)) :
    ∃ files, Holds path dir' files ∧ files.length ≤ backupCount.toNat + 1 ∧ I files := by
  refine hrun.invariant
    (I := fun dir => ∃ files, Holds path dir files ∧ files.length ≤ backupCount.toNat + 1 ∧ I files)
    ⟨[], holds_empty path, Nat.zero_le _, hnil⟩ ?_
  rintro dir payload dir' ⟨files, hholds, hlength, hI⟩ hP hstep
  cases hstep
  exact ⟨_, holds_appendJsonl hholds hlength payload, Generations.length_push_le hlength _ payload,
    hpush dir files payload hholds hP hI⟩

/-- **The log is a bounded queue** after every run. -/
theorem boundedQueue_of_run (hmax : 0 < maxBytes) {P : LogDirectory ρ → ρ → Prop} {records : List ρ}
    (hrun : RunWhere (fmt.appendStep path maxBytes backupCount) P ∅ records dir) :
    fmt.BoundedQueue path maxBytes backupCount records dir := by
  obtain ⟨files, hholds, hlength, hsuffix⟩ := exists_holds_of_run hrun (holds_empty path) (Nat.zero_le _)
  refine ⟨?_, ?_, ?_, ?_⟩
  · rw [retained_eq hholds hlength]
    exact hsuffix
  · intro name hname
    obtain ⟨g, hg, rfl⟩ := hholds.exists_lt hname
    exact ⟨g, by omega, rfl⟩
  · intro name lines hlines
    obtain ⟨files, hholds, -, hsize⟩ := exists_holds_and_of_run
      (I := fun files => ∀ lines ∈ files, fmt.fileSize lines ≤ maxBytes ∨ lines.length = 1) hrun
      (fun _ hnil => absurd hnil List.not_mem_nil)
      fun dir files payload hholds _ hsize => size_push hholds hmax hsize
    obtain ⟨g, rfl⟩ := hholds.named name (AList.lookup_isSome.mp (by rw [hlines]; rfl))
    rw [hholds.lookup] at hlines
    exact hsize lines (List.mem_of_getElem? hlines)
  · -- The active file is one of the names there are, unless there is none.
    rw [(hholds.keys_perm.filter _).length_eq]
    cases files with
    | nil => exact Nat.zero_le _
    | cons newest older =>
      rw [List.length_cons, List.range_succ_eq_map, List.map_cons,
        List.filter_cons_of_neg (by rw [generationPath, decide_not, decide_eq_true rfl]; exact Bool.false_ne_true)]
      refine (List.length_filter_le _ _).trans ?_
      rw [List.length_map, List.length_map, List.length_range]
      rw [List.length_cons] at hlength
      omega

/-- **The audit log**: after every run it is a bounded queue of the records appended; and in a run that
never appends a record of a turn while a file kept aside holds one of it, the last retained record of
every turn is found. -/
theorem boundedQueue_and_readsBack (hmax : 0 < maxBytes) (records : List ρ) (dir : LogDirectory ρ) :
    (run (fmt.appendStep path maxBytes backupCount) ∅ records = some dir →
      fmt.BoundedQueue path maxBytes backupCount records dir) ∧
    (RunWhere (fmt.appendStep path maxBytes backupCount) (fmt.TurnInOneFile path maxBytes backupCount)
      ∅ records dir → fmt.ReadsBack path backupCount dir) := by
  refine ⟨fun hrun => boundedQueue_of_run hmax (run_eq_some_iff.mp hrun), fun hrun => ?_⟩
  obtain ⟨files, hholds, hlength, hone⟩ := exists_holds_and_of_run
    (I := fun files => ∀ s t, Generations.OneFile files (fmt.OfTurn s t)) hrun (fun _ _ => List.Pairwise.nil)
    fun dir files payload hholds hfresh hone => oneFile_push hholds hfresh hone
  intro sessionId turnId
  rw [findRecordByTurn_eq hholds sessionId turnId (hone sessionId turnId), retained_eq hholds hlength]

/-! ## A turn recorded twice -/

/-- Records of a turn with a row count, as `{"session_id": "s", "turn_id": "t", "row_count": 1}`. -/
def rowCountFormat : LineFormat (String × String × ℕ) where
  lineSize r := 50 + r.1.utf8ByteSize + r.2.1.utf8ByteSize + r.2.2.repr.length
  get r key := if key = "session_id" then some r.1 else if key = "turn_id" then some r.2.1 else none

/-- Two turns, one in each file. -/
theorem twoTurns_readsBack :
    ∃ dir, run (rowCountFormat.appendStep "audit" 60 1) ∅ [("s", "t", 1), ("s", "u", 2)] = some dir ∧
      dir.keys = ["audit", "audit.1"] ∧
      rowCountFormat.BoundedQueue "audit" 60 1 [("s", "t", 1), ("s", "u", 2)] dir ∧
      rowCountFormat.ReadsBack "audit" 1 dir := by
  have h := @boundedQueue_and_readsBack _ rowCountFormat "audit" 60 1 (by decide) [("s", "t", 1), ("s", "u", 2)]
  refine ⟨_, rfl, by decide, (h _).1 rfl, (h _).2 (.cons ?_ rfl (.cons ?_ rfl (.nil _)))⟩ <;> decide

/-- **A turn recorded twice** with a rotation between: the older record is found. -/
theorem turnTwice_not_readsBack : ∃ dir,
    run (rowCountFormat.appendStep "audit" 60 1) ∅ [("s", "t", 1), ("s", "t", 2)] = some dir ∧
      ¬ rowCountFormat.ReadsBack "audit" 1 dir := by
  refine ⟨_, rfl, fun h => ?_⟩
  have hfound := h "s" "t"
  revert hfound
  decide

end LineFormat

end LocalSqlAgent
