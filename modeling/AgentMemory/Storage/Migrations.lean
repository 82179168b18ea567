import AgentMemory.Lib.Runs
import AgentMemory.Lib.Table
import Mathlib.Data.List.Infix
import Mathlib.Data.List.Perm.Subperm
import Mathlib.Order.Defs.LinearOrder

/-!
# Migrations

`RunMigrations` of `internal/adapters/storage/postgres/migrate.go` applies the files of a directory in the order of
their names, each in one transaction with the row that records its version. Nothing but the primary key of
`schema_migrations` stands between two processes that migrate at once. `migrations_applied_once` says what holds for
any number of processes that start, fail and stop at any point, each with a directory of its own;
`migrations_in_order` what holds where each release only adds files behind those of the last one.
-/

namespace AgentMemory

open Tables Runs

/-- A file `<version>.up.sql`. What its text does is left open. -/
structure MigrationFile (Sql : Type) where
  version : List Char
  sql : Sql

/-- The base name of the file. -/
def MigrationFile.name {Sql : Type} (f : MigrationFile Sql) : List Char := f.version ++ ".up.sql".toList

/-- The files that `Glob` finds in a directory, which holds one file of a name. -/
abbrev MigrationDir (Sql : Type) := Table (MigrationFile Sql) MigrationFile.version

/-- `sort.Strings(files)`. -/
def sortedFiles {Sql : Type} (dir : MigrationDir Sql) : List (MigrationFile Sql) :=
  dir.rows.mergeSort fun f g => !decide (g.name < f.name)

/-- A database with its table `schema_migrations`. A row is kept with the text it was written for, of which the table
keeps the version alone. -/
structure MigrationDb (S Sql : Type) where
  schema : S
  applied : Table (MigrationFile Sql) MigrationFile.version

section Model

variable {S Sql : Type} (exec : Sql → S → Option S)

namespace MigrationDb

/-- `migrationApplied` (`migrate.go:83-87`). -/
def migrationApplied (db : MigrationDb S Sql) (f : MigrationFile Sql) : Bool := (db.applied.find? f.version).isSome

/-- The transaction of a file (`migrate.go:61-74`), where it commits. -/
def apply (db : MigrationDb S Sql) (f : MigrationFile Sql) : Option (MigrationDb S Sql) :=
  (exec f.sql db.schema).bind fun schema =>
    if db.migrationApplied f = true then none else some ⟨schema, db.applied.upsert f⟩

end MigrationDb

/-- The loop of `RunMigrations` (`migrate.go:46-79`) where no call fails by itself, and whether it returns nil. -/
def runMigrations : List (MigrationFile Sql) → MigrationDb S Sql → MigrationDb S Sql × Bool
  | [], db => (db, true)
  | f :: files, db =>
    if db.migrationApplied f = true then runMigrations files db
    else match db.apply exec f with
      | none => (db, false)
      | some db' => runMigrations files db'

/-- Where a process is: between runs, at the head of the loop, in a transaction, or after a run that returned nil.
The files it has gone past come first. -/
inductive Migrator (Sql : Type) where
  | idle
  | checking (seen todo : List (MigrationFile Sql))
  | applying (seen : List (MigrationFile Sql)) (f : MigrationFile Sql) (todo : List (MigrationFile Sql))
  | done (seen : List (MigrationFile Sql))

/-- A database and the processes that migrate it. -/
structure Migration (S Sql : Type) where
  db : MigrationDb S Sql
  migrators : Nat → Migrator Sql

/-- What can happen next. -/
inductive MigrationAction (Sql : Type) where
  /-- A process lists its directory. -/
  | start (i : Nat) (dir : MigrationDir Sql)
  | check (i : Nat)
  /-- The transaction commits or is rolled back, and the process is told so. -/
  | apply (i : Nat)
  /-- It commits, and the process is not told. -/
  | applyUnheard (i : Nat)
  /-- A call fails, or the process stops. -/
  | stop (i : Nat)

namespace Migration

def initial (schema : S) : Migration S Sql := ⟨⟨schema, Table.empty⟩, fun _ => .idle⟩

def setMigrator (s : Migration S Sql) (i : Nat) (m : Migrator Sql) : Migration S Sql :=
  { s with migrators := fun j => if j = i then m else s.migrators j }

/-- One step. -/
def step (s : Migration S Sql) : MigrationAction Sql → Option (Migration S Sql)
  | .start i dir =>
    match s.migrators i with
    | .idle | .done _ => some (s.setMigrator i (.checking [] (sortedFiles dir)))
    | _ => none
  | .check i =>
    match s.migrators i with
    | .checking seen [] => some (s.setMigrator i (.done seen))
    | .checking seen (f :: todo) =>
      some (s.setMigrator i
        (if s.db.migrationApplied f = true then .checking (seen ++ [f]) todo else .applying seen f todo))
    | _ => none
  | .apply i =>
    match s.migrators i with
    | .applying seen f todo =>
      match s.db.apply exec f with
      | none => some (s.setMigrator i .idle)
      | some db => some ({ s with db := db }.setMigrator i (.checking (seen ++ [f]) todo))
    | _ => none
  | .applyUnheard i =>
    match s.migrators i with
    | .applying _ f _ => (s.db.apply exec f).map fun db => { s with db := db }.setMigrator i .idle
    | _ => none
  | .stop i => some (s.setMigrator i .idle)

end Migration

/-! ## What a transaction and a step do -/

variable {exec}

theorem MigrationDb.migrationApplied_iff {db : MigrationDb S Sql} {f : MigrationFile Sql} :
    db.migrationApplied f = true ↔ f.version ∈ db.applied.rows.map MigrationFile.version := by
  rw [migrationApplied, Option.isSome_iff_ne_none, Table.mem_map_key]

/-- A transaction that commits runs its text and adds a row, under a version that had none. -/
theorem MigrationDb.apply_eq_some {db db' : MigrationDb S Sql} {f : MigrationFile Sql} (h : db.apply exec f = some db') :
    exec f.sql db.schema = some db'.schema ∧ db.migrationApplied f = false ∧
      db'.applied.rows = db.applied.rows ++ [f] := by
  obtain ⟨schema, hschema, h⟩ := Option.bind_eq_some_iff.mp h
  obtain ⟨hnew, h⟩ := Option.ite_none_left_eq_some.mp h
  obtain rfl := Option.some.inj h
  have hfresh : ¬ f.version ∈ db.applied.rows.map MigrationFile.version := fun hmem =>
    hnew (migrationApplied_iff.mpr hmem)
  refine ⟨hschema, Bool.eq_false_iff.mpr hnew, ?_⟩
  rw [Table.upsert, dif_neg hfresh]

namespace Migrator

/-- The files it has gone past. -/
def seen : Migrator Sql → List (MigrationFile Sql)
  | .idle => []
  | .checking seen _ => seen
  | .applying seen _ _ => seen
  | .done seen => seen

/-- The files it has before it. -/
def pending : Migrator Sql → List (MigrationFile Sql)
  | .idle => []
  | .checking _ todo => todo
  | .applying _ f todo => f :: todo
  | .done _ => []

/-- What a process does within a run without a commit. -/
inductive Moves (db : MigrationDb S Sql) : Migrator Sql → Migrator Sql → Prop where
  | finished (seen : List (MigrationFile Sql)) : Moves db (.checking seen []) (.done seen)
  | passed {seen todo : List (MigrationFile Sql)} {f : MigrationFile Sql} (h : db.migrationApplied f = true) :
      Moves db (.checking seen (f :: todo)) (.checking (seen ++ [f]) todo)
  | found {seen todo : List (MigrationFile Sql)} {f : MigrationFile Sql} (h : db.migrationApplied f = false) :
      Moves db (.checking seen (f :: todo)) (.applying seen f todo)
  | stopped (m : Migrator Sql) : Moves db m .idle

theorem Moves.seen {db : MigrationDb S Sql} {m m' : Migrator Sql} (h : Moves db m m') :
    ∀ g ∈ m'.seen, g ∈ m.seen ∨ db.migrationApplied g = true := by
  intro g hg
  cases h with
  | finished seen => exact Or.inl hg
  | passed happlied =>
    obtain hg | hg := List.mem_append.mp hg
    · exact Or.inl hg
    · obtain rfl := List.mem_singleton.mp hg
      exact Or.inr happlied
  | found _ => exact Or.inl hg
  | stopped m => exact absurd hg List.not_mem_nil

/-- A process goes through the files that it listed, until it stops. -/
theorem Moves.files {db : MigrationDb S Sql} {m m' : Migrator Sql} (h : Moves db m m') :
    m'.seen ++ m'.pending = m.seen ++ m.pending ∨ m' = .idle := by
  cases h with
  | finished seen => exact Or.inl rfl
  | passed _ => exact Or.inl (by simp [Migrator.seen, pending])
  | found _ => exact Or.inl rfl
  | stopped m => exact Or.inr rfl

end Migrator

namespace Migration

/-- A step starts a run, moves a process on, or commits the transaction of a process. -/
theorem step_cases {s s' : Migration S Sql} {a : MigrationAction Sql} (h : s.step exec a = some s') :
    (∃ i dir, a = .start i dir ∧ s' = s.setMigrator i (.checking [] (sortedFiles dir))) ∨
    (∃ i m, Migrator.Moves s.db (s.migrators i) m ∧ s' = s.setMigrator i m) ∨
    ∃ i seen f todo db m, s.migrators i = .applying seen f todo ∧ s.db.apply exec f = some db ∧
      (m = .idle ∨ m = .checking (seen ++ [f]) todo) ∧ s' = { s with db := db }.setMigrator i m := by
  cases a with
  | start i dir =>
    simp only [step] at h
    split at h
    · exact Or.inl ⟨i, dir, rfl, (Option.some.inj h).symm⟩
    · exact Or.inl ⟨i, dir, rfl, (Option.some.inj h).symm⟩
    · cases h
  | check i =>
    right; left
    simp only [step] at h
    split at h
    · next seen hi => exact ⟨i, _, hi ▸ .finished seen, (Option.some.inj h).symm⟩
    · next seen f todo hi =>
      obtain rfl := Option.some.inj h
      split
      · next happlied => exact ⟨i, _, hi ▸ .passed happlied, rfl⟩
      · next hnew => exact ⟨i, _, hi ▸ .found (Bool.eq_false_iff.mpr hnew), rfl⟩
    · cases h
  | apply i =>
    right
    simp only [step] at h
    split at h
    · next seen f todo hi =>
      split at h
      · exact Or.inl ⟨i, _, .stopped _, (Option.some.inj h).symm⟩
      · next db hdb => exact Or.inr ⟨i, seen, f, todo, db, _, hi, hdb, Or.inr rfl, (Option.some.inj h).symm⟩
    · cases h
  | applyUnheard i =>
    right; right
    simp only [step] at h
    split at h
    · next seen f todo hi =>
      obtain ⟨db, hdb, rfl⟩ := Option.map_eq_some_iff.mp h
      exact ⟨i, seen, f, todo, db, _, hi, hdb, Or.inl rfl, rfl⟩
    · cases h
  | stop i => exact Or.inr (Or.inl ⟨i, _, .stopped _, (Option.some.inj h).symm⟩)

/-! ## Each version takes effect once -/

end Migration

/-- The schema after these texts, one after the other. -/
def replay (exec : Sql → S → Option S) (schema : S) (files : List (MigrationFile Sql)) : Option S :=
  files.foldlM (fun schema f => exec f.sql schema) schema

theorem replay_append {schema : S} {files files' : List (MigrationFile Sql)} :
    replay exec schema (files ++ files') = (replay exec schema files).bind fun schema => replay exec schema files' :=
  List.foldlM_append

theorem replay_singleton {schema : S} {f : MigrationFile Sql} : replay exec schema [f] = exec f.sql schema := by
  simp [replay]

namespace Migration

/-- The schema is what the applied files make of the first one, and whatever a process has gone past is applied. -/
structure Consistent (exec : Sql → S → Option S) (schema : S) (s : Migration S Sql) : Prop where
  replayed : replay exec schema s.db.applied.rows = some s.db.schema
  passed : ∀ i, ∀ f ∈ (s.migrators i).seen, s.db.migrationApplied f = true

theorem consistent_initial (schema : S) : (initial schema : Migration S Sql).Consistent exec schema :=
  ⟨rfl, fun _ _ hf => absurd hf List.not_mem_nil⟩

theorem migrators_setMigrator (s : Migration S Sql) (i j : Nat) (m : Migrator Sql) :
    (s.setMigrator i m).migrators j = if j = i then m else s.migrators j := rfl

/-- A version that is applied stays so. -/
theorem migrationApplied_append {db db' : MigrationDb S Sql} {f g : MigrationFile Sql}
    (hrows : db'.applied.rows = db.applied.rows ++ [f]) :
    db'.migrationApplied g = true ↔ db.migrationApplied g = true ∨ g.version = f.version := by
  rw [MigrationDb.migrationApplied_iff, MigrationDb.migrationApplied_iff, hrows, List.map_append, List.mem_append]
  simp

theorem consistent_step {schema : S} {s s' : Migration S Sql} {a : MigrationAction Sql} (hs : s.Consistent exec schema)
    (h : s.step exec a = some s') : s'.Consistent exec schema := by
  obtain ⟨i, dir, -, rfl⟩ | ⟨i, m, hmove, rfl⟩ | ⟨i, seen, f, todo, db, m, hi, hdb, hm, rfl⟩ := step_cases h
  · refine ⟨hs.replayed, fun j g hg => ?_⟩
    rw [migrators_setMigrator] at hg
    split at hg
    · exact absurd hg List.not_mem_nil
    · exact hs.passed j g hg
  · refine ⟨hs.replayed, fun j g hg => ?_⟩
    rw [migrators_setMigrator] at hg
    split at hg
    · exact (hmove.seen g hg).elim (hs.passed i g) id
    · exact hs.passed j g hg
  · obtain ⟨hschema, -, hrows⟩ := MigrationDb.apply_eq_some hdb
    have hkept : ∀ g, s.db.migrationApplied g = true → db.migrationApplied g = true := fun g hg =>
      (migrationApplied_append hrows).mpr (Or.inl hg)
    constructor
    · change replay exec schema db.applied.rows = some db.schema
      rw [hrows, replay_append, hs.replayed, Option.bind_some, replay_singleton]
      exact hschema
    · intro j g hg
      rw [migrators_setMigrator] at hg
      split at hg
      · obtain rfl | rfl := hm
        · exact absurd hg List.not_mem_nil
        · obtain hg | hg := List.mem_append.mp hg
          · have hseen := hs.passed i g
            rw [hi] at hseen
            exact hkept g (hseen hg)
          · obtain rfl := List.mem_singleton.mp hg
            exact (migrationApplied_append hrows).mpr (Or.inr rfl)
      · exact hkept g (hs.passed j g hg)

theorem consistent_run {schema : S} {s : Migration S Sql} {acts : List (MigrationAction Sql)}
    (h : run (step exec) (initial schema) acts = some s) : s.Consistent exec schema :=
  run_invariant (P := fun _ _ => True) (fun _ _ _ hs _ hstep => consistent_step hs hstep)
    (consistent_initial schema) (guarded_true _ _) h

/-- What has been applied stays the beginning of what is applied. -/
theorem applied_prefix_step {s s' : Migration S Sql} {a : MigrationAction Sql} (h : s.step exec a = some s') :
    s.db.applied.rows <+: s'.db.applied.rows := by
  obtain ⟨i, dir, -, rfl⟩ | ⟨i, m, hmove, rfl⟩ | ⟨i, seen, f, todo, db, m, hi, hdb, hm, rfl⟩ := step_cases h
  · exact List.prefix_refl _
  · exact List.prefix_refl _
  · obtain ⟨-, -, hrows⟩ := MigrationDb.apply_eq_some hdb
    exact ⟨[f], hrows.symm⟩

theorem applied_prefix_run {s s' : Migration S Sql} {acts : List (MigrationAction Sql)}
    (h : run (step exec) s acts = some s') : s.db.applied.rows <+: s'.db.applied.rows :=
  run_invariant (P := fun _ _ => True) (I := fun t => s.db.applied.rows <+: t.db.applied.rows)
    (fun _ _ _ hs _ hstep => hs.trans (applied_prefix_step hstep)) (List.prefix_refl _) (guarded_true _ _) h

/-- A process within a run goes through a directory with which it was started. -/
theorem listed_run {schema : S} {acts : List (MigrationAction Sql)} {s : Migration S Sql}
    (h : run (step exec) (initial schema) acts = some s) (i : Nat) (hi : s.migrators i ≠ .idle) :
    ∃ dir, MigrationAction.start i dir ∈ acts ∧ (s.migrators i).seen ++ (s.migrators i).pending = sortedFiles dir := by
  induction acts using List.reverseRecOn generalizing s with
  | nil =>
    obtain rfl := Option.some.inj h
    exact absurd rfl hi
  | append_singleton acts a ih =>
    obtain ⟨mid, hmid, hlast⟩ := run_append.mp h
    obtain ⟨last, hstep, hlast⟩ := run_cons.mp hlast
    obtain rfl := Option.some.inj hlast
    have hbefore : mid.migrators i ≠ .idle → ∃ dir, MigrationAction.start i dir ∈ acts ++ [a] ∧
        (mid.migrators i).seen ++ (mid.migrators i).pending = sortedFiles dir := by
      intro hne
      obtain ⟨dir, hdir, hfiles⟩ := ih hmid hne
      exact ⟨dir, List.mem_append_left _ hdir, hfiles⟩
    obtain ⟨j, dir, rfl, rfl⟩ | ⟨j, m, hmove, rfl⟩ | ⟨j, seen, f, todo, db, m, hj, hdb, hm, rfl⟩ := step_cases hstep
    · rw [migrators_setMigrator] at hi ⊢
      split
      · next hij =>
        subst hij
        exact ⟨dir, List.mem_append_right _ (List.mem_singleton_self _), rfl⟩
      · next hij => exact hbefore (by simpa only [if_neg hij] using hi)
    · rw [migrators_setMigrator] at hi ⊢
      split
      · next hij =>
        subst hij
        rw [if_pos rfl] at hi
        have hne : mid.migrators i ≠ .idle := by
          intro hidle
          rw [hidle] at hmove
          cases hmove
          exact hi rfl
        obtain ⟨dir, hdir, hfiles⟩ := hbefore hne
        exact ⟨dir, hdir, (hmove.files.resolve_right hi).trans hfiles⟩
      · next hij => exact hbefore (by simpa only [if_neg hij] using hi)
    · rw [migrators_setMigrator] at hi ⊢
      split
      · next hij =>
        subst hij
        rw [if_pos rfl] at hi
        rw [hj] at hbefore
        obtain ⟨dir, hdir, hfiles⟩ := hbefore (by simp)
        obtain rfl := hm.resolve_left hi
        exact ⟨dir, hdir, by simpa [Migrator.seen, Migrator.pending] using hfiles⟩
      · next hij => exact hbefore (by simpa only [if_neg hij] using hi)

end Migration

end Model

/-- Whatever processes do in whatever order, the schema is what the applied files make of the first one, each version
once and none taken back, and a run that returns nil leaves every version of its directory applied. -/
theorem migrations_applied_once {S Sql : Type} (exec : Sql → S → Option S) (schema : S)
    {acts : List (MigrationAction Sql)} {s : Migration S Sql}
    (h : run (Migration.step exec) (Migration.initial schema) acts = some s) :
    replay exec schema s.db.applied.rows = some s.db.schema ∧
      (s.db.applied.rows.map MigrationFile.version).Nodup ∧
      (∀ acts' s', run (Migration.step exec) s acts' = some s' → s.db.applied.rows <+: s'.db.applied.rows) ∧
      ∀ i files, s.migrators i = .done files → ∃ dir, MigrationAction.start i dir ∈ acts ∧
        ∀ f ∈ dir.rows, f.version ∈ s.db.applied.rows.map MigrationFile.version := by
  have hs := Migration.consistent_run h
  refine ⟨hs.replayed, s.db.applied.nodup, fun acts' s' h' => Migration.applied_prefix_run h', fun i files hi => ?_⟩
  obtain ⟨dir, hdir, hfiles⟩ := Migration.listed_run h i (by simp [hi])
  refine ⟨dir, hdir, fun f hf => MigrationDb.migrationApplied_iff.mp (hs.passed i f ?_)⟩
  rw [hi] at hfiles ⊢
  have hfiles : files = sortedFiles dir := by simpa [Migrator.seen, Migrator.pending] using hfiles
  change f ∈ files
  rw [hfiles, sortedFiles, List.mem_mergeSort]
  exact hf

section Model

variable {S Sql : Type} {exec : Sql → S → Option S}

namespace Migration

/-! ## Releases that add files behind the others -/

/-- A process that starts lists a directory whose files are the first ones of a release. -/
def StartsWithin (release : MigrationDir Sql) : MigrationAction Sql → Prop
  | .start _ dir => sortedFiles dir <+: sortedFiles release
  | _ => True

/-- The applied files are the first ones of the release, and so is what each process goes through. -/
structure InOrder (release : MigrationDir Sql) (s : Migration S Sql) : Prop where
  applied : s.db.applied.rows <+: sortedFiles release
  files : ∀ i, (s.migrators i).seen ++ (s.migrators i).pending <+: sortedFiles release

theorem nodup_sortedFiles (dir : MigrationDir Sql) : ((sortedFiles dir).map MigrationFile.version).Nodup :=
  ((List.mergeSort_perm _ _).map _).nodup_iff.mpr dir.nodup

/-- Among the first files of a release, those that are applied are those whose version is. -/
theorem InOrder.mem_applied_iff {release : MigrationDir Sql} {s : Migration S Sql} (hs : s.InOrder release)
    {f : MigrationFile Sql} (hf : f ∈ sortedFiles release) :
    s.db.migrationApplied f = true ↔ f ∈ s.db.applied.rows := by
  rw [MigrationDb.migrationApplied_iff]
  constructor
  · intro h
    obtain ⟨g, hg, hversion⟩ := List.mem_map.mp h
    obtain rfl := List.inj_on_of_nodup_map (nodup_sortedFiles release) (hs.applied.subset hg) hf hversion
    exact hg
  · exact fun h => List.mem_map_of_mem h

/-- A process applies a file only when just the files before it are applied. -/
theorem InOrder.applied_eq {release : MigrationDir Sql} {schema : S} {s : Migration S Sql} (hs : s.InOrder release)
    (hpassed : s.Consistent exec schema) {i : Nat} {seen todo : List (MigrationFile Sql)} {f : MigrationFile Sql}
    (hi : s.migrators i = .applying seen f todo) (hnew : s.db.migrationApplied f = false) :
    s.db.applied.rows = seen := by
  have hfiles := hs.files i
  rw [hi] at hfiles
  have hfirst : seen ++ [f] <+: sortedFiles release :=
    List.IsPrefix.trans ⟨todo, by simp [Migrator.seen, Migrator.pending]⟩ hfiles
  have hf : f ∈ sortedFiles release := hfirst.subset (List.mem_append_right _ (List.mem_singleton_self f))
  have hfresh : f ∉ s.db.applied.rows := fun hmem =>
    Bool.false_ne_true (hnew.symm.trans ((hs.mem_applied_iff hf).mpr hmem))
  have hseen : seen ⊆ s.db.applied.rows := by
    intro g hg
    have hpassed := hpassed.passed i g (hi ▸ hg)
    exact (hs.mem_applied_iff (hfirst.subset (List.mem_append_left _ hg))).mp hpassed
  have hnodup : seen.Nodup :=
    ((nodup_sortedFiles release).of_map _).sublist ((List.sublist_append_left _ _).trans hfirst.sublist)
  have hlength : seen.length ≤ s.db.applied.rows.length := (hnodup.subperm hseen).length_le
  -- `applied` is one of the two beginnings of the release, and the longer one has the file
  obtain hle | hle := List.prefix_or_prefix_of_prefix hs.applied hfirst
  · obtain heq | hshort := List.prefix_concat_iff.mp hle
    · exact absurd (heq ▸ List.mem_append_right _ (List.mem_singleton_self f)) hfresh
    · exact hshort.eq_of_length_le hlength
  · exact absurd (hle.subset (List.mem_append_right _ (List.mem_singleton_self f))) hfresh

theorem inOrder_initial (release : MigrationDir Sql) (schema : S) : (initial schema).InOrder release :=
  ⟨List.nil_prefix, fun _ => List.nil_prefix⟩

theorem inOrder_step {release : MigrationDir Sql} {schema : S} {s s' : Migration S Sql} {a : MigrationAction Sql}
    (hs : s.InOrder release) (hconsistent : s.Consistent exec schema) (ha : StartsWithin release a)
    (h : s.step exec a = some s') : s'.InOrder release := by
  obtain ⟨i, dir, rfl, rfl⟩ | ⟨i, m, hmove, rfl⟩ | ⟨i, seen, f, todo, db, m, hi, hdb, hm, rfl⟩ := step_cases h
  · refine ⟨hs.applied, fun j => ?_⟩
    rw [migrators_setMigrator]
    split
    · exact ha
    · exact hs.files j
  · refine ⟨hs.applied, fun j => ?_⟩
    rw [migrators_setMigrator]
    split
    · obtain hfiles | rfl := hmove.files
      · rw [hfiles]
        exact hs.files i
      · exact List.nil_prefix
    · exact hs.files j
  · obtain ⟨-, hnew, hrows⟩ := MigrationDb.apply_eq_some hdb
    have hfiles := hs.files i
    rw [hi] at hfiles
    constructor
    · change db.applied.rows <+: sortedFiles release
      rw [hrows, hs.applied_eq hconsistent hi hnew]
      exact List.IsPrefix.trans ⟨todo, by simp [Migrator.seen, Migrator.pending]⟩ hfiles
    · intro j
      rw [migrators_setMigrator]
      split
      · obtain rfl | rfl := hm
        · exact List.nil_prefix
        · simpa [Migrator.seen, Migrator.pending] using hfiles
      · exact hs.files j

theorem inOrder_run {release : MigrationDir Sql} {schema : S} {s : Migration S Sql} {acts : List (MigrationAction Sql)}
    (hacts : ∀ a ∈ acts, StartsWithin release a) (h : run (step exec) (initial schema) acts = some s) :
    s.InOrder release := by
  have hguard : Guarded (step exec) (fun _ a => StartsWithin release a) (initial schema : Migration S Sql) acts :=
    guarded_of_forall hacts
  have hboth : s.InOrder release ∧ s.Consistent exec schema :=
    run_invariant (I := fun s => s.InOrder release ∧ s.Consistent exec schema)
      (fun _ _ _ hs ha hstep => ⟨inOrder_step hs.1 hs.2 ha hstep, consistent_step hs.2 hstep⟩)
      ⟨inOrder_initial release schema, consistent_initial schema⟩ hguard h
  exact hboth.1

end Migration

/-! ## A process alone -/

/-- Files that are applied are passed over. -/
theorem runMigrations_append {db : MigrationDb S Sql} {files files' : List (MigrationFile Sql)}
    (h : ∀ f ∈ files, db.migrationApplied f = true) :
    runMigrations exec (files ++ files') db = runMigrations exec files' db := by
  induction files with
  | nil => rfl
  | cons f files ih =>
    obtain ⟨hf, hfiles⟩ := List.forall_mem_cons.mp h
    rw [List.cons_append, runMigrations, if_pos hf, ih hfiles]

/-- New files are applied in turn, where each text succeeds. -/
theorem runMigrations_new {db : MigrationDb S Sql} {files : List (MigrationFile Sql)}
    (hnew : ((db.applied.rows ++ files).map MigrationFile.version).Nodup) :
    (runMigrations exec files db).2 = (replay exec db.schema files).isSome ∧
      ((runMigrations exec files db).2 = true →
        (runMigrations exec files db).1.applied.rows = db.applied.rows ++ files) := by
  induction files generalizing db with
  | nil => exact ⟨rfl, fun _ => (List.append_nil _).symm⟩
  | cons f files ih =>
    have hfresh : ¬ db.migrationApplied f = true := by
      rw [MigrationDb.migrationApplied_iff]
      intro hmem
      rw [List.map_append, List.map_cons] at hnew
      exact (List.nodup_append.mp hnew).2.2 _ hmem _ List.mem_cons_self rfl
    have hreplay : replay exec db.schema (f :: files) =
        (exec f.sql db.schema).bind fun schema => replay exec schema files := List.foldlM_cons
    rw [runMigrations, if_neg hfresh, hreplay]
    cases happly : db.apply exec f with
    | none =>
      have hfails : exec f.sql db.schema = none := by
        rw [MigrationDb.apply, Option.bind_eq_none_iff] at happly
        refine Option.eq_none_iff_forall_ne_some.mpr fun schema hschema => ?_
        have hnone := happly schema hschema
        rw [if_neg hfresh] at hnone
        cases hnone
      rw [hfails]
      exact ⟨rfl, fun hfalse => absurd hfalse Bool.false_ne_true⟩
    | some db' =>
      obtain ⟨hschema, -, hrows⟩ := MigrationDb.apply_eq_some happly
      rw [hschema, Option.bind_some]
      have hrest := @ih db' (by rwa [hrows, List.append_assoc])
      rw [hrows, List.append_assoc] at hrest
      exact hrest

namespace Migration

/-- The loop of a process is a run in which nobody else does anything and nothing fails by itself. -/
theorem run_alone {s : Migration S Sql} {i : Nat} {seen files : List (MigrationFile Sql)}
    (hi : s.migrators i = .checking seen files) : ∃ acts s', run (step exec) s acts = some s' ∧
      s'.db = (runMigrations exec files s.db).1 ∧
        s'.migrators i = if (runMigrations exec files s.db).2 = true then .done (seen ++ files) else .idle := by
  induction files generalizing s seen with
  | nil =>
    refine ⟨[.check i], s.setMigrator i (.done seen), ?_, rfl, ?_⟩
    · rw [run_cons]
      exact ⟨_, by simp only [step, hi], rfl⟩
    · simp [migrators_setMigrator, runMigrations]
  | cons f files ih =>
    rw [runMigrations]
    by_cases happlied : s.db.migrationApplied f = true
    · have hcheck : s.step exec (.check i) = some (s.setMigrator i (.checking (seen ++ [f]) files)) := by
        simp only [step, hi, if_pos happlied]
      obtain ⟨acts, s', hrun, hdb, hmigrator⟩ := ih (s := s.setMigrator i (.checking (seen ++ [f]) files))
        (if_pos rfl)
      rw [if_pos happlied]
      refine ⟨.check i :: acts, s', run_cons.mpr ⟨_, hcheck, hrun⟩, hdb, ?_⟩
      rw [hmigrator, List.append_assoc]
      rfl
    · have hcheck : s.step exec (.check i) = some (s.setMigrator i (.applying seen f files)) := by
        simp only [step, hi, if_neg happlied]
      have hmid : (s.setMigrator i (.applying seen f files)).migrators i = .applying seen f files := if_pos rfl
      rw [if_neg happlied]
      cases happly : s.db.apply exec f with
      | none =>
        refine ⟨[.check i, .apply i], (s.setMigrator i (.applying seen f files)).setMigrator i .idle, ?_, rfl, if_pos rfl⟩
        refine run_cons.mpr ⟨_, hcheck, run_cons.mpr ⟨_, ?_, rfl⟩⟩
        simp only [step, hmid]
        rw [show (s.setMigrator i (.applying seen f files)).db = s.db from rfl, happly]
      | some db =>
        have happly' : (s.setMigrator i (.applying seen f files)).step exec (.apply i) =
            some ({ s.setMigrator i (.applying seen f files) with db := db }.setMigrator i
              (.checking (seen ++ [f]) files)) := by
          simp only [step, hmid]
          rw [show (s.setMigrator i (.applying seen f files)).db = s.db from rfl, happly]
        obtain ⟨acts, s', hrun, hdb, hmigrator⟩ := ih
          (s := { s.setMigrator i (.applying seen f files) with db := db }.setMigrator i
            (.checking (seen ++ [f]) files)) (if_pos rfl)
        refine ⟨.check i :: .apply i :: acts, s',
          run_cons.mpr ⟨_, hcheck, run_cons.mpr ⟨_, happly', hrun⟩⟩, hdb, ?_⟩
        rw [hmigrator, List.append_assoc]
        rfl

end Migration

end Model

/-- Where each release only adds files behind those of the last one, every database goes through the same schemas in
the same order, and a process that is left alone completes its directory exactly if the texts of the directory
succeed one after the other from the first schema. -/
theorem migrations_in_order {S Sql : Type} (exec : Sql → S → Option S) (schema : S) (release : MigrationDir Sql)
    {acts : List (MigrationAction Sql)} (hacts : ∀ a ∈ acts, Migration.StartsWithin release a) {s : Migration S Sql}
    (h : run (Migration.step exec) (Migration.initial schema) acts = some s) :
    s.db.applied.rows <+: sortedFiles release ∧ replay exec schema s.db.applied.rows = some s.db.schema ∧
      ∀ dir, sortedFiles dir <+: sortedFiles release →
        ((runMigrations exec (sortedFiles dir) s.db).2 = true ↔
          (replay exec schema (sortedFiles dir)).isSome = true) ∧
        ((runMigrations exec (sortedFiles dir) s.db).2 = true →
          sortedFiles dir <+: (runMigrations exec (sortedFiles dir) s.db).1.applied.rows) := by
  have horder := Migration.inOrder_run hacts h
  have hreplayed := (Migration.consistent_run h).replayed
  refine ⟨horder.applied, hreplayed, fun dir hdir => ?_⟩
  have happlied : ∀ f ∈ s.db.applied.rows, s.db.migrationApplied f = true := fun f hf =>
    MigrationDb.migrationApplied_iff.mpr (List.mem_map_of_mem hf)
  obtain hle | hle := List.prefix_or_prefix_of_prefix hdir horder.applied
  · -- all of the directory is applied already
    have hrun : runMigrations exec (sortedFiles dir) s.db = (s.db, true) := by
      have hpassed := @runMigrations_append _ _ exec s.db (sortedFiles dir) [] fun f hf => happlied f (hle.subset hf)
      rwa [List.append_nil] at hpassed
    obtain ⟨later, hlater⟩ := hle
    have hsome : (replay exec schema (sortedFiles dir)).isSome = true := by
      rw [← hlater, replay_append] at hreplayed
      obtain ⟨mid, hmid, -⟩ := Option.bind_eq_some_iff.mp hreplayed
      rw [hmid, Option.isSome_some]
    rw [hrun]
    exact ⟨iff_of_true rfl hsome, fun _ => ⟨later, hlater⟩⟩
  · -- what is applied is the beginning of the directory
    obtain ⟨later, hlater⟩ := hle
    have hnew : ((s.db.applied.rows ++ later).map MigrationFile.version).Nodup := by
      rw [hlater]
      exact Migration.nodup_sortedFiles dir
    obtain ⟨hreturns, hrows⟩ := @runMigrations_new _ _ exec s.db later hnew
    rw [← hlater, runMigrations_append happlied, replay_append, hreplayed, Option.bind_some, hreturns]
    refine ⟨Iff.rfl, fun hsome => ?_⟩
    rw [hrows (hreturns.trans hsome)]

/-! ## Two processes and one file -/

def sampleMigration : MigrationFile Nat := ⟨"000001_init".toList, 1⟩

def sampleRelease : MigrationDir Nat := ⟨[sampleMigration], List.nodup_singleton _⟩

/-- A text adds itself to the schema. -/
def sampleExec (sql : Nat) (schema : List Nat) : Option (List Nat) := some (schema ++ [sql])

/-- Both find the file new, and the second transaction is rolled back. -/
def sampleMigrationActions : List (MigrationAction Nat) :=
  [.start 0 sampleRelease, .start 1 sampleRelease, .check 0, .check 1, .apply 0, .apply 1]

theorem sortedFiles_sampleRelease : sortedFiles sampleRelease = [sampleMigration] := List.mergeSort_singleton _

theorem exists_run_sampleMigrationActions :
    ∃ s, run (Migration.step sampleExec) (Migration.initial []) sampleMigrationActions = some s := by
  apply Option.isSome_iff_exists.mp
  have hstarted : (run (Migration.step sampleExec)
      ((Migration.initial []).setMigrator 0 (.checking [] (sortedFiles sampleRelease)))
      sampleMigrationActions.tail).isSome = true := by
    rw [sortedFiles_sampleRelease]
    simp only [sampleMigrationActions, List.tail_cons, run, Migration.step, sortedFiles_sampleRelease]
    rfl
  exact hstarted

theorem migrations_applied_once_two : ∃ s : Migration (List Nat) Nat,
    run (Migration.step sampleExec) (Migration.initial []) sampleMigrationActions = some s ∧
      replay sampleExec [] s.db.applied.rows = some s.db.schema := by
  obtain ⟨s, hs⟩ := exists_run_sampleMigrationActions
  exact ⟨s, hs, (migrations_applied_once sampleExec [] hs).1⟩

theorem startsWithin_sampleMigrationActions :
    ∀ a ∈ sampleMigrationActions, Migration.StartsWithin sampleRelease a := by
  simp [sampleMigrationActions, Migration.StartsWithin]

theorem migrations_in_order_two : ∃ s : Migration (List Nat) Nat,
    run (Migration.step sampleExec) (Migration.initial []) sampleMigrationActions = some s ∧
      s.db.applied.rows <+: sortedFiles sampleRelease := by
  obtain ⟨s, hs⟩ := exists_run_sampleMigrationActions
  exact ⟨s, hs, (migrations_in_order sampleExec [] sampleRelease startsWithin_sampleMigrationActions hs).1⟩

end AgentMemory
