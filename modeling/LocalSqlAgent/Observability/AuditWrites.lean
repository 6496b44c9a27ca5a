import LocalSqlAgent.Lib.JsonDumps
import LocalSqlAgent.Lib.PyText
import LocalSqlAgent.Lib.TextFile
import LocalSqlAgent.Observability.AuditLog

/-! # Writing and reading the audit log

`observability.audit.save_audit_record` over bytes, with every place where the file system may refuse, and
`scripts.analyze_audit_log.iter_records` that reads the files back.

* **`appendJsonl`**: `logs.logger.append_jsonl`. A rotation may stop after any of its operations, and a write
  after any number of bytes.
* **`saveAuditRecord`**: only an `OSError` is caught and counted.
* **`iterRecords`**: a line that is no JSON is skipped; a file that is no UTF-8 raises.
* **`lookup_applyOps`**, **`lookup_appendBytes`**: a rotation, finished or not, moves files and removes them;
  a write makes the active file longer.
* **`whole_mem_active`**: a record whose write did not fail is whole in the active file. -/

namespace LocalSqlAgent

universe u

/-! ## Rotation, one operation after the other -/

/-- What `_rotate` does to a file. -/
inductive FileOp where
  /-- `if os.path.exists(name): os.remove(name)`. -/
  | remove (name : String)
  /-- `if os.path.exists(src): os.replace(src, dst)`. -/
  | replace (src dst : String)

section Rotation

variable {ρ : Type u}

/-- One operation. -/
def FileOp.apply : FileOp → LogDirectory ρ → LogDirectory ρ
  | .remove name, dir => dir.erase name
  | .replace src dst, dir => replaceFile dir src dst

/-- Operations in turn. -/
def applyOps (ops : List FileOp) (dir : LogDirectory ρ) : LogDirectory ρ := ops.foldl (fun dir op => op.apply dir) dir

/-- The loop of `_rotate`. -/
def shiftOps (path : String) : ℕ → List FileOp
  | 0 => []
  | g + 1 => .replace (rotatedPath path (g + 1)) (rotatedPath path (g + 2)) :: shiftOps path g

/-- **The operations of `_rotate`.** -/
def rotationOps (path : String) (backupCount : ℤ) : List FileOp :=
  if backupCount ≤ 0 then [.remove path]
  else .remove (rotatedPath path backupCount.toNat) ::
    (shiftOps path (backupCount.toNat - 1) ++ [.replace path (rotatedPath path 1)])

theorem applyOps_shiftOps (path : String) (n : ℕ) (dir : LogDirectory ρ) :
    applyOps (shiftOps path n) dir = shiftGenerations path n dir := by
  induction n generalizing dir with
  | zero => rfl
  | succ n ih => exact ih _

/-- **All of them** are the rotation. -/
theorem applyOps_rotationOps (path : String) (backupCount : ℤ) (dir : LogDirectory ρ) :
    applyOps (rotationOps path backupCount) dir = rotate path backupCount dir := by
  unfold rotationOps rotate
  split
  · rfl
  · show applyOps (shiftOps path _ ++ _) (FileOp.apply (.remove _) dir) = _
    rw [applyOps, List.foldl_append]
    exact congrArg (fun dir => replaceFile dir path (rotatedPath path 1)) (applyOps_shiftOps path _ _)

/-- An operation moves a file or removes it. -/
theorem FileOp.lookup_apply {op : FileOp} {dir : LogDirectory ρ} {name : String} {file : List ρ}
    (h : (op.apply dir).lookup name = some file) : ∃ name', dir.lookup name' = some file := by
  cases op with
  | remove removed =>
    by_cases hname : name = removed
    · rw [FileOp.apply, hname, AList.lookup_erase] at h
      cases h
    · rw [FileOp.apply, AList.lookup_erase_ne hname] at h
      exact ⟨name, h⟩
  | replace src dst =>
    rw [FileOp.apply, replaceFile] at h
    split at h
    · rename_i moved hsrc
      by_cases hname : name = dst
      · rw [hname, AList.lookup_insert] at h
        exact ⟨src, hsrc.trans h⟩
      · rw [AList.lookup_insert_ne hname] at h
        by_cases hold : name = src
        · rw [hold, AList.lookup_erase] at h
          cases h
        · rw [AList.lookup_erase_ne hold] at h
          exact ⟨name, h⟩
    · exact ⟨name, h⟩

/-- **Every file there is** after some operations was there before. -/
theorem lookup_applyOps {ops : List FileOp} {dir : LogDirectory ρ} {name : String} {file : List ρ}
    (h : (applyOps ops dir).lookup name = some file) : ∃ name', dir.lookup name' = some file := by
  induction ops generalizing dir name with
  | nil => exact ⟨name, h⟩
  | cons op ops ih =>
    obtain ⟨name', hafter⟩ := ih h
    exact op.lookup_apply hafter

end Rotation

/-! ## Records -/

/-- **A record as `as_dict` gives it**: a dictionary of a few levels with numbers that are finite, and strings
of any code points. -/
structure AuditPayload (L : DecodeLimits) where
  /-- The members of the dictionary. -/
  members : List (List ℕ × JsonValue)
  /-- The numbers and the nesting. -/
  written : WrittenAt L L.depth (.obj members)
  /-- The code points of its strings. -/
  points : ∀ n ∈ textPoints (.obj members), n < 0x110000

variable {L : DecodeLimits}

namespace AuditPayload

/-- `json.dumps(payload, ensure_ascii=False) + "\n"`. -/
def line (payload : AuditPayload L) : List ℕ := jsonDumpsText (.obj payload.members) ++ ['\n'.toNat]

/-- `line.encode("utf-8")`, none when it raises. -/
def lineBytes (payload : AuditPayload L) : Option (List UInt8) := (charsOf payload.line).map utf8Bytes

end AuditPayload

/-- What a call wrote to a file. -/
structure Chunk (L : DecodeLimits) where
  /-- Its record. -/
  payload : AuditPayload L
  /-- The bytes of its line that reached the file. -/
  bytes : List UInt8

/-- **Written whole**: the line to its newline. -/
def Chunk.Whole (c : Chunk L) : Prop := c.payload.lineBytes = some c.bytes

instance : DecidablePred (Chunk.Whole (L := L)) := fun c => inferInstanceAs (Decidable (c.payload.lineBytes = some c.bytes))

/-- The bytes of a file. -/
def fileBytes (chunks : List (Chunk L)) : List UInt8 := chunks.flatMap Chunk.bytes

/-! ## `append_jsonl` -/

/-- **Where the file system refuses.** -/
inductive Fault where
  /-- Nowhere. -/
  | never
  /-- Before anything is changed: in `os.makedirs`, `os.path.getsize`. -/
  | preparing
  /-- In the rotation, after so many of its operations. -/
  | rotating (done : ℕ)
  /-- In `open`. -/
  | opening
  /-- In the write, the flush or the close, after so many bytes have reached the file. -/
  | writing (bytes : ℕ)
  /-- In `os.chmod`. -/
  | permitting
  deriving DecidableEq

/-- A call of `save_audit_record` with the settings it reads and what becomes of it. -/
structure AuditCall (L : DecodeLimits) where
  payload : AuditPayload L
  /-- `LOG_MAX_BYTES`. -/
  maxBytes : ℤ
  /-- `LOG_BACKUP_COUNT`. -/
  backupCount : ℤ
  fault : Fault

/-- How `append_jsonl` ends. -/
inductive AppendEnd where
  | returned
  /-- `OSError`. -/
  | osError
  /-- `UnicodeEncodeError`. -/
  | encodeError
  deriving DecidableEq

/-- The end of `append_jsonl`, the files after it, and whether all of the line is in its file. -/
structure Appended (L : DecodeLimits) where
  ended : AppendEnd
  files : LogDirectory (Chunk L)
  whole : Bool

/-- Where the log is: its path, and whether the system has modes of files (`os.name != "nt"`). -/
structure LogPlace where
  path : String
  posix : Bool

namespace LogPlace

variable (place : LogPlace)

/-- The active file. -/
def active (files : LogDirectory (Chunk L)) : List (Chunk L) := (files.lookup place.path).getD []

/-- Whether the line takes the active file over `max_bytes`. -/
def needsRotation (files : LogDirectory (Chunk L)) (maxBytes : ℤ) (line : List UInt8) : Bool :=
  decide (0 < maxBytes) && (files.lookup place.path).isSome &&
    decide (maxBytes < (fileBytes (place.active files)).length + line.length)

/-- The operations before the write. -/
def opsBefore (files : LogDirectory (Chunk L)) (call : AuditCall L) (line : List UInt8) : List FileOp :=
  if place.needsRotation files call.maxBytes line then rotationOps place.path call.backupCount else []

/-- `open(path, "a")` and what reaches the file. -/
def appendBytes (files : LogDirectory (Chunk L)) (payload : AuditPayload L) (bytes : List UInt8) :
    LogDirectory (Chunk L) :=
  files.insert place.path (place.active files ++ if bytes = [] then [] else [⟨payload, bytes⟩])

/-- The end of `append_jsonl`: opening, writing and, for a new file, its mode. -/
def writeLine (files : LogDirectory (Chunk L)) (call : AuditCall L) (line : List UInt8) : Appended L :=
  let creating := !(files.lookup place.path).isSome
  match call.fault with
  | .opening => ⟨.osError, files, false⟩
  | .writing n => ⟨.osError, place.appendBytes files call.payload (line.take n), decide (line.length ≤ n)⟩
  | .permitting =>
    ⟨if creating && place.posix then .osError else .returned, place.appendBytes files call.payload line, true⟩
  | _ => ⟨.returned, place.appendBytes files call.payload line, true⟩

/-- The operation of the rotation that is refused. -/
def stoppedAt (fault : Fault) (ops : List FileOp) : Option ℕ :=
  match fault with
  | .rotating done => if done < ops.length then some done else none
  | _ => none

/-- **`append_jsonl`**. -/
def appendJsonl (files : LogDirectory (Chunk L)) (call : AuditCall L) : Appended L :=
  match call.payload.lineBytes with
  | none => ⟨.encodeError, files, false⟩
  | some line =>
    if call.fault = .preparing then ⟨.osError, files, false⟩
    else
      let ops := place.opsBefore files call line
      match stoppedAt call.fault ops with
      | some done => ⟨.osError, applyOps (ops.take done) files, false⟩
      | none => place.writeLine (applyOps ops files) call line

/-- Whether the call rotates. -/
def rotates (files : LogDirectory (Chunk L)) (call : AuditCall L) : Bool :=
  match call.payload.lineBytes with
  | some line => place.needsRotation files call.maxBytes line
  | none => false

/-- After a rotation there is no active file. -/
theorem active_rotated (files : LogDirectory (Chunk L)) (backupCount : ℤ) :
    (applyOps (rotationOps place.path backupCount) files).lookup place.path = none := by
  rw [applyOps_rotationOps]
  exact (lookup_rotate backupCount 0).trans (if_pos rfl)

/-- **What a write does to the files**: the active file grows, the others stay. -/
theorem lookup_appendBytes {files : LogDirectory (Chunk L)} {payload : AuditPayload L} {bytes : List UInt8}
    {name : String} {chunks : List (Chunk L)}
    (h : (place.appendBytes files payload bytes).lookup name = some chunks) :
    (name = place.path ∧ chunks = place.active files ++ if bytes = [] then [] else [⟨payload, bytes⟩]) ∨
      files.lookup name = some chunks := by
  unfold appendBytes at h
  by_cases hname : name = place.path
  · rw [hname, AList.lookup_insert] at h
    exact .inl ⟨hname, (Option.some_inj.mp h).symm⟩
  · rw [AList.lookup_insert_ne hname] at h
    exact .inr h

theorem lineBytes_ne_nil {payload : AuditPayload L} {line : List UInt8} (h : payload.lineBytes = some line) :
    line ≠ [] := by
  obtain ⟨cs, hcs, rfl⟩ := Option.map_eq_some_iff.mp h
  refine utf8Bytes_ne_nil fun hnil => ?_
  have hlength := length_charsOf hcs
  rw [hnil, AuditPayload.line, List.length_append, List.length_singleton, List.length_nil] at hlength
  omega

theorem mem_active_appendBytes {files : LogDirectory (Chunk L)} {payload : AuditPayload L} {bytes : List UInt8}
    (h : bytes ≠ []) : ⟨payload, bytes⟩ ∈ place.active (place.appendBytes files payload bytes) := by
  unfold active appendBytes
  rw [AList.lookup_insert, Option.getD_some, if_neg h]
  exact List.mem_append_right _ List.mem_cons_self

/-- **A record whose write did not fail** is whole in the active file. -/
theorem whole_mem_active {files : LogDirectory (Chunk L)} {call : AuditCall L}
    (h : (place.appendJsonl files call).whole = true) :
    ∃ c ∈ place.active (place.appendJsonl files call).files, c.payload = call.payload ∧ c.Whole := by
  unfold appendJsonl at h ⊢
  cases hline : call.payload.lineBytes with
  | none =>
    rw [hline] at h
    cases h
  | some line =>
    have hne := lineBytes_ne_nil hline
    have hwritten : ∀ files, ∃ c ∈ place.active (place.appendBytes files call.payload line),
        c.payload = call.payload ∧ c.Whole := fun files =>
      ⟨_, place.mem_active_appendBytes hne, rfl, hline⟩
    rw [hline] at h
    dsimp only at h ⊢
    split at h
    · cases h
    · rename_i hprepared
      rw [if_neg hprepared]
      split at h
      · cases h
      · unfold writeLine at h ⊢
        cases hfault : call.fault with
        | opening =>
          rw [hfault] at h
          cases h
        | writing n =>
          rw [hfault] at h
          have hall : line.length ≤ n := of_decide_eq_true h
          dsimp only
          rw [List.take_of_length_le hall]
          exact hwritten _
        | permitting => exact hwritten _
        | never => exact hwritten _
        | preparing => exact absurd hfault hprepared
        | rotating _ => exact hwritten _

end LogPlace

/-! ## `save_audit_record` -/

/-- A call that has ended. -/
structure SavedCall where
  /-- Whether it raised. -/
  raised : Bool
  /-- Whether all of its line reached the file. -/
  whole : Bool
  deriving DecidableEq

/-- The log's files, `_write_failures["count"]`, and the calls so far. -/
structure AuditTrail (L : DecodeLimits) where
  files : LogDirectory (Chunk L) := ∅
  writeFailures : ℕ := 0
  saved : List SavedCall := []

/-- **`save_audit_record`**: an `OSError` is counted, anything else is raised. -/
def saveAuditRecord (place : LogPlace) (trail : AuditTrail L) (call : AuditCall L) : AuditTrail L :=
  let appended := place.appendJsonl trail.files call
  { files := appended.files
    writeFailures := trail.writeFailures + if appended.ended = .osError then 1 else 0
    saved := trail.saved ++ [⟨decide (appended.ended = .encodeError), appended.whole⟩] }

/-- A step of the log. -/
def auditStep (place : LogPlace) (trail : AuditTrail L) (call : AuditCall L) : Option (AuditTrail L) :=
  some (saveAuditRecord place trail call)

/-! ## `iter_records` -/

/-- What `iter_records` raises. -/
inductive ReadFailure where
  /-- `UnicodeDecodeError`. -/
  | decode
  /-- What `json.loads` raises beside `JSONDecodeError`. -/
  | json (e : DecodeFailure)
  deriving DecidableEq

/-- The records of a line: one or none. -/
def lineRecords (L : DecodeLimits) (line : List Char) : Except ReadFailure (List JsonValue) :=
  let line := strip line
  if line = [] then .ok []
  else
    match jsonLoadsText L line with
    | .ok (.obj members) => .ok [.obj members]
    | .ok _ => .ok []
    | .error .syntactic => .ok []
    | .error e => .error (.json e)

/-- Those of several texts, up to the first that raises. -/
def concatRecords {α : Type u} (records : α → Except ReadFailure (List JsonValue)) :
    List α → Except ReadFailure (List JsonValue)
  | [] => .ok []
  | a :: rest =>
    match records a with
    | .error e => .error e
    | .ok here => (concatRecords records rest).map fun later => here ++ later

/-- The records of a file. -/
def fileRecords (L : DecodeLimits) (bytes : List UInt8) : Except ReadFailure (List JsonValue) :=
  match utf8Text bytes with
  | none => .error .decode
  | some text => concatRecords (lineRecords L) (fileLines (universalNewlines text))

/-- **`iter_records`**, to its end: every caller in the program takes all of it. -/
def iterAuditRecords (files : LogDirectory (Chunk L)) (paths : List String) : Except ReadFailure (List JsonValue) :=
  concatRecords (fun name => fileRecords L (fileBytes ((files.lookup name).getD []))) paths

end LocalSqlAgent
