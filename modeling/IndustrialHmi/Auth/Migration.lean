import IndustrialHmi.Auth.UserRepository

/-!
# Schema migration

An attempt to open the store is one SQL statement after another.  Each of them succeeds, or
fails without an effect, and a crash is the end of the list of their fates.  The ladder has two
rungs: the first only stamps version 1, the second adds four columns, one by one, and then stamps
version 2.  An attempt that ends between those columns and the stamp leaves a table to which the
first of the columns cannot be added again.
-/

namespace Auth.Migration

open UserRow (Column Cell)

/-! ## The database on the disk -/

/-- A table as it lies on the disk, with `none` for null. -/
structure Table where
  columns : List Column
  rows : List (List (Option Cell))
  width : ∀ row ∈ rows, row.length = columns.length

structure Database where
  /-- `PRAGMA user_version`. -/
  version : ℤ
  users : Option Table

/-- What `CREATE TABLE` makes. -/
def baseColumns : List Column := [.id, .username, .passwordHash, .role, .enabled, .createdAt]

/-- What is new in version 2. -/
def addedColumns : List Column := [.displayName, .avatarMime, .avatarBlob, .updatedAt]

def kCurrentSchemaVersion : ℤ := 2

inductive Statement where
  | createTable
  | stamp (version : ℤ)
  | addColumn (column : Column)
  deriving DecidableEq

def Table.addColumn (t : Table) (column : Column) : Table where
  columns := t.columns ++ [column]
  rows := t.rows.map (· ++ [none])
  width := by
    intro row hrow
    obtain ⟨row', hrow', rfl⟩ := List.mem_map.mp hrow
    rw [List.length_append, List.length_append, t.width row' hrow', List.length_singleton,
      List.length_singleton]

/-- What a statement does, unless it fails by itself. -/
def Statement.execute (db : Database) : Statement → Option Database
  | .createTable =>
      match db.users with
      | none => some { db with
          users := some ⟨baseColumns, [], fun _ h => absurd h List.not_mem_nil⟩ }
      | some _ => some db
  | .stamp version => some { db with version := version }
  | .addColumn column =>
      match db.users with
      | none => none
      | some t =>
          if column ∈ t.columns then none
          else some { db with users := some (t.addColumn column) }

/-! ## An attempt -/

inductive Fate where
  | succeeds
  | fails
  deriving DecidableEq

/-- Where an attempt is. -/
inductive Position where
  | opening
  | creating
  | reading
  /-- In a case of the ladder, with what is left of it. -/
  | climbing (next : Statement) (rest : List Statement)
  | returned (value : Bool)
  deriving DecidableEq

/-- The cases of the ladder. -/
def rung (version : ℤ) : Position :=
  if version = 0 then .climbing (.stamp 1) []
  else if version = 1 then
    .climbing (.addColumn .displayName)
      [.addColumn .avatarMime, .addColumn .avatarBlob, .addColumn .updatedAt, .stamp 2]
  else .returned false

/-- A version that cannot be read counts as 0. -/
def readSchemaVersion (db : Database) : Fate → ℤ
  | .succeeds => db.version
  | .fails => 0

/-- Carries out a statement and goes on, or gives the attempt up. -/
def exec (db : Database) (s : Statement) (next : Position) : Fate → Position × Database
  | .fails => (.returned false, db)
  | .succeeds =>
      match s.execute db with
      | none => (.returned false, db)
      | some db => (next, db)

/-- A case that is carried out leads back to the read of the version. -/
def Position.after : List Statement → Position
  | [] => .reading
  | s :: rest => .climbing s rest

def step : Position × Database → Fate → Position × Database
  | (.opening, db), fate => (if fate = .succeeds then .creating else .returned false, db)
  | (.creating, db), fate => exec db .createTable .reading fate
  | (.reading, db), fate =>
      let version := readSchemaVersion db fate
      (if kCurrentSchemaVersion ≤ version then .returned true else rung version, db)
  | (.climbing s rest, db), fate => exec db s (.after rest) fate
  | (.returned value, db), _ => (.returned value, db)

def resume (at_ : Position × Database) (fates : List Fate) : Position × Database :=
  fates.foldl step at_

def initializeRepository (db : Database) (fates : List Fate) : Position × Database :=
  resume (.opening, db) fates

/-- The database that attempts in a row leave. -/
def Database.after (db : Database) (attempts : List (List Fate)) : Database :=
  attempts.foldl (fun db fates => (initializeRepository db fates).2) db

/-! ## What is asked of it -/

/-- The databases that a release has left somewhere. -/
inductive Deployed : Database → Prop where
  | fresh : Deployed ⟨0, none⟩
  | unstamped (t : Table) (h : t.columns = baseColumns) : Deployed ⟨0, some t⟩
  | stamped (t : Table) (h : t.columns = baseColumns) : Deployed ⟨1, some t⟩
  | current (t : Table) (h : t.columns = baseColumns ++ addedColumns) : Deployed ⟨2, some t⟩

/-- Every row is there, with what it had in its columns and null in the new ones. -/
def Keeps (db db' : Database) : Prop :=
  ∀ t, db.users = some t → ∃ t' added, db'.users = some t' ∧
    t'.rows = t.rows.map (· ++ List.replicate added none)

def Migrated (db : Database) : Prop :=
  db.version = kCurrentSchemaVersion ∧ ∃ t, db.users = some t ∧
    ∀ column ∈ addedColumns, t.columns.count column = 1

/-- An attempt in which nothing fails carries out no more statements than this. -/
def kStatements : Nat := 11

/-- After the attempts, one in which nothing fails returns true and migrates the database. -/
def Resumes (db : Database) (attempts : List (List Fate)) : Prop :=
  ∀ n, kStatements ≤ n →
    (initializeRepository (db.after attempts) (List.replicate n .succeeds)).1 = .returned true ∧
    Migrated (initializeRepository (db.after attempts) (List.replicate n .succeeds)).2 ∧
    Keeps db (initializeRepository (db.after attempts) (List.replicate n .succeeds)).2

/-! ## Attempts that end well -/

/-- From a read of the version on: the columns are added all together with the stamp of
version 2, or none of them is, and no database of version 2 is stamped with version 1. -/
def wholeFromRead : List Fate → ℤ → Bool
  | .succeeds :: .succeeds :: fates, version =>
      if version = 0 then wholeFromRead fates 1
      else if version = 1 then
        match fates with
        | .succeeds :: .succeeds :: .succeeds :: .succeeds :: fates => wholeFromRead fates 2
        | _ => false
      else true
  | .fails :: .succeeds :: fates, version => version ≠ 2 && wholeFromRead fates 1
  | _, _ => true

/-- The store is opened and the table created first. -/
def whole (version : ℤ) : List Fate → Bool
  | .succeeds :: .succeeds :: fates => wholeFromRead fates version
  | _ => true

def WholeRun : Database → List (List Fate) → Prop
  | _, [] => True
  | db, fates :: attempts =>
      whole db.version fates = true ∧ WholeRun (initializeRepository db fates).2 attempts

/-! ## Rows -/

theorem Keeps.refl (db : Database) : Keeps db db := by
  intro t ht
  refine ⟨t, 0, ht, ?_⟩
  simp only [List.replicate_zero, List.append_nil, List.map_id']

theorem Keeps.trans {db db' db'' : Database} (h : Keeps db db') (h' : Keeps db' db'') :
    Keeps db db'' := by
  intro t ht
  obtain ⟨t', added, ht', hrows⟩ := h t ht
  obtain ⟨t'', added', ht'', hrows'⟩ := h' t' ht'
  refine ⟨t'', added + added', ht'', ?_⟩
  rw [hrows', hrows, List.map_map]
  refine List.map_congr_left fun row _ => ?_
  rw [Function.comp_apply, List.append_assoc, List.replicate_append_replicate]

theorem keeps_execute {db db' : Database} {s : Statement} (h : s.execute db = some db') :
    Keeps db db' := by
  cases s with
  | createTable =>
      intro t ht
      simp only [Statement.execute, ht, Option.some.injEq] at h
      subst h
      exact Keeps.refl db t ht
  | stamp version =>
      obtain rfl := Option.some.inj h
      exact Keeps.refl db
  | addColumn column =>
      intro t ht
      simp only [Statement.execute, ht] at h
      split at h
      · cases h
      · obtain rfl := Option.some.inj h
        exact ⟨t.addColumn column, 1, rfl, rfl⟩

theorem keeps_exec (db : Database) (s : Statement) (next : Position) (fate : Fate) :
    Keeps db (exec db s next fate).2 := by
  cases fate with
  | fails => exact .refl db
  | succeeds =>
      simp only [exec]
      cases hs : s.execute db with
      | none => exact .refl db
      | some db' => exact keeps_execute hs

theorem keeps_step (at_ : Position × Database) (fate : Fate) : Keeps at_.2 (step at_ fate).2 := by
  obtain ⟨position, db⟩ := at_
  cases position with
  | opening => exact .refl db
  | creating => exact keeps_exec _ _ _ _
  | reading => exact .refl db
  | climbing s rest => exact keeps_exec _ _ _ _
  | returned value => exact .refl db

theorem keeps_resume (at_ : Position × Database) (fates : List Fate) :
    Keeps at_.2 (resume at_ fates).2 := by
  induction fates generalizing at_ with
  | nil => exact .refl _
  | cons fate fates ih => exact (keeps_step at_ fate).trans (ih _)

theorem keeps_after (db : Database) (attempts : List (List Fate)) :
    Keeps db (db.after attempts) := by
  induction attempts generalizing db with
  | nil => exact .refl db
  | cons fates attempts ih => exact (keeps_resume (.opening, db) fates).trans (ih _)

/-! ## A table that already has the first of the new columns -/

/-- The database is at version 1 with the first of the columns of version 2. -/
inductive Stuck : Database → Prop where
  | mk (t : Table) (h : Column.displayName ∈ t.columns) : Stuck ⟨1, some t⟩

/-- Where an attempt can be that is made on such a database. -/
inductive Barred : Position → Prop where
  | opening : Barred .opening
  | creating : Barred .creating
  | reading : Barred .reading
  | stamping : Barred (.climbing (.stamp 1) [])
  | adding (rest : List Statement) : Barred (.climbing (.addColumn .displayName) rest)
  | failed : Barred (.returned false)

theorem stuck_exec_adding {db : Database} (h : Stuck db) (next : Position) (fate : Fate) :
    exec db (.addColumn .displayName) next fate = (.returned false, db) := by
  cases h with
  | mk t h =>
      cases fate with
      | fails => rfl
      | succeeds => simp only [exec, Statement.execute, if_pos h]

theorem stuck_step {position : Position} {db : Database} (hposition : Barred position)
    (hstuck : Stuck db) (fate : Fate) :
    Barred (step (position, db) fate).1 ∧ Stuck (step (position, db) fate).2 := by
  cases hposition with
  | opening =>
      cases fate with
      | succeeds => exact ⟨.creating, hstuck⟩
      | fails => exact ⟨.failed, hstuck⟩
  | creating =>
      cases hstuck with
      | mk t h =>
          cases fate with
          | succeeds => exact ⟨.reading, .mk t h⟩
          | fails => exact ⟨.failed, .mk t h⟩
  | reading =>
      cases hstuck with
      | mk t h =>
          cases fate with
          | succeeds => exact ⟨.adding _, .mk t h⟩
          | fails => exact ⟨.stamping, .mk t h⟩
  | stamping =>
      cases hstuck with
      | mk t h =>
          cases fate with
          | succeeds => exact ⟨.reading, .mk t h⟩
          | fails => exact ⟨.failed, .mk t h⟩
  | adding rest =>
      rw [step, stuck_exec_adding hstuck]
      exact ⟨.failed, hstuck⟩
  | failed => exact ⟨.failed, hstuck⟩

theorem stuck_resume {position : Position} {db : Database} (hposition : Barred position)
    (hstuck : Stuck db) (fates : List Fate) :
    Barred (resume (position, db) fates).1 ∧ Stuck (resume (position, db) fates).2 := by
  induction fates generalizing position db with
  | nil => exact ⟨hposition, hstuck⟩
  | cons fate fates ih =>
      obtain ⟨hposition', hstuck'⟩ := stuck_step hposition hstuck fate
      exact ih hposition' hstuck'

/-- No attempt gets such a database out of it. -/
theorem stuck_after {db : Database} (h : Stuck db) (attempts : List (List Fate)) :
    Stuck (db.after attempts) := by
  induction attempts generalizing db with
  | nil => exact h
  | cons fates attempts ih => exact ih (stuck_resume .opening h fates).2

/-! ## The second rung -/

/-- In the second case of the ladder, with the columns that are still to be added. -/
def adding (columns : List Column) : Position :=
  .after (columns.map .addColumn ++ [.stamp 2])

def Table.addColumns (t : Table) (columns : List Column) : Table :=
  columns.foldl Table.addColumn t

theorem columns_addColumns (t : Table) (columns : List Column) :
    (t.addColumns columns).columns = t.columns ++ columns := by
  induction columns generalizing t with
  | nil => exact (List.append_nil _).symm
  | cons column columns ih => exact (ih _).trans (List.append_assoc _ _ _)

theorem step_adding {t : Table} {column : Column} (hcolumn : column ∉ t.columns)
    (columns : List Column) (version : ℤ) :
    step (adding (column :: columns), ⟨version, some t⟩) .succeeds =
      (adding columns, ⟨version, some (t.addColumn column)⟩) := by
  rw [adding, List.map_cons, List.cons_append, Position.after, step]
  simp only [exec, Statement.execute, if_neg hcolumn]
  rfl

theorem nodup_addColumn {t : Table} {column : Column} {columns : List Column}
    (h : (t.columns ++ column :: columns).Nodup) :
    column ∉ t.columns ∧ ((t.addColumn column).columns ++ columns).Nodup := by
  refine ⟨fun hmem => List.disjoint_of_nodup_append h hmem List.mem_cons_self, ?_⟩
  rw [Table.addColumn, List.append_assoc]
  exact h

/-- The columns and the stamp, one after the other. -/
theorem resume_adding {columns : List Column} {t : Table} (h : (t.columns ++ columns).Nodup)
    (version : ℤ) (fates : List Fate) :
    resume (adding columns, ⟨version, some t⟩)
      (List.replicate columns.length .succeeds ++ .succeeds :: fates) =
        resume (.reading, ⟨2, some (t.addColumns columns)⟩) fates := by
  induction columns generalizing t with
  | nil => rfl
  | cons column columns ih =>
      obtain ⟨hcolumn, hrest⟩ := nodup_addColumn h
      rw [List.length_cons, List.replicate_succ, List.cons_append, resume, List.foldl_cons,
        step_adding hcolumn]
      exact ih hrest

theorem resume_returned (value : Bool) (db : Database) (fates : List Fate) :
    resume (.returned value, db) fates = (.returned value, db) := by
  induction fates with
  | nil => rfl
  | cons fate fates ih => exact ih

/-- A statement of the ladder that fails ends the attempt. -/
theorem resume_fails (s : Statement) (rest : List Statement) (db : Database)
    (fates : List Fate) :
    resume (.climbing s rest, db) (.fails :: fates) = (.returned false, db) :=
  resume_returned false db fates

theorem adding_eq (columns : List Column) :
    ∃ s rest, adding columns = .climbing s rest := by
  cases columns with
  | nil => exact ⟨_, _, rfl⟩
  | cons column columns => exact ⟨_, _, rfl⟩

/-- An attempt that ends among them leaves the first of the columns without the stamp. -/
theorem stuck_adding {columns : List Column} {t : Table} {fates : List Fate}
    (h : (t.columns ++ columns).Nodup) (hfirst : Column.displayName ∈ t.columns)
    (hfates : ¬ List.replicate (columns.length + 1) Fate.succeeds <+: fates) :
    Stuck (resume (adding columns, ⟨1, some t⟩) fates).2 := by
  induction fates generalizing columns t with
  | nil => exact .mk t hfirst
  | cons fate fates ih =>
      cases fate with
      | fails =>
          obtain ⟨s, rest, hadding⟩ := adding_eq columns
          rw [hadding, resume_fails]
          exact .mk t hfirst
      | succeeds =>
          cases columns with
          | nil => exact absurd (List.prefix_append [Fate.succeeds] fates) hfates
          | cons column columns =>
              obtain ⟨hcolumn, hrest⟩ := nodup_addColumn h
              rw [resume, List.foldl_cons, step_adding hcolumn]
              refine ih hrest (List.mem_append_left _ hfirst) fun hsome => hfates ?_
              exact List.cons_prefix_cons.mpr ⟨rfl, hsome⟩

/-! ## One attempt -/

/-- How an attempt leaves a database that was deployed. -/
def Ended (whole : Bool) (db : Database) : Prop :=
  (whole = true → Deployed db) ∧ (whole = false → Stuck db)

theorem Deployed.ended {db : Database} (h : Deployed db) : Ended true db :=
  ⟨fun _ => h, fun hfalse => by cases hfalse⟩

theorem Stuck.ended {db : Database} (h : Stuck db) : Ended false db :=
  ⟨fun htrue => (by cases htrue), fun _ => h⟩

theorem baseColumns_of_deployed {version : ℤ} {t : Table} (h : Deployed ⟨version, some t⟩)
    (hversion : version ≠ 2) : t.columns = baseColumns := by
  cases h with
  | unstamped t h => exact h
  | stamped t h => exact h
  | current t h => exact absurd rfl hversion

/-- A statement that fails right after the version was read leaves the database as it was. -/
theorem resume_reading_fails (db : Database) (fate : Fate) (fates : List Fate) :
    (resume (.reading, db) (fate :: .fails :: fates)).2 = db := by
  rw [resume, List.foldl_cons, step]
  split
  · exact congrArg Prod.snd (resume_returned true db (.fails :: fates))
  · unfold rung
    split
    · exact congrArg Prod.snd (resume_fails _ _ db fates)
    · split
      · exact congrArg Prod.snd (resume_fails _ _ db fates)
      · exact congrArg Prod.snd (resume_returned false db (.fails :: fates))

/-- The columns of a table of version 1 are all added, with the stamp. -/
theorem resume_reading_adding {t : Table} (h : t.columns = baseColumns) (fates : List Fate) :
    resume (.reading, ⟨1, some t⟩) (.succeeds ::
      (List.replicate addedColumns.length .succeeds ++ .succeeds :: fates)) =
        resume (.reading, ⟨2, some (t.addColumns addedColumns)⟩) fates := by
  have hnodup : (t.columns ++ addedColumns).Nodup := by rw [h]; decide
  exact resume_adding hnodup 1 fates

theorem deployed_addColumns {t : Table} (h : t.columns = baseColumns) :
    Deployed ⟨2, some (t.addColumns addedColumns)⟩ :=
  .current _ (by rw [columns_addColumns, h])

theorem stuck_reading {t : Table} (h : t.columns = baseColumns) {fates : List Fate}
    (hfates : ¬ List.replicate addedColumns.length Fate.succeeds <+: fates) :
    Stuck (resume (.reading, ⟨1, some t⟩) (.succeeds :: .succeeds :: fates)).2 := by
  have hnodup : (t.columns ++ addedColumns).Nodup := by rw [h]; decide
  obtain ⟨hcolumn, hrest⟩ := nodup_addColumn hnodup
  have hfirst : step (step (.reading, ⟨1, some t⟩) .succeeds) .succeeds =
      (adding [.avatarMime, .avatarBlob, .updatedAt], ⟨1, some (t.addColumn .displayName)⟩) :=
    step_adding hcolumn [.avatarMime, .avatarBlob, .updatedAt] 1
  rw [resume, List.foldl_cons, List.foldl_cons, hfirst]
  exact stuck_adding hrest (List.mem_append_right _ (List.mem_singleton_self _)) hfates

theorem ended_reading (fates : List Fate) (version : ℤ) {t : Table}
    (h : Deployed ⟨version, some t⟩) :
    Ended (wholeFromRead fates version) (resume (.reading, ⟨version, some t⟩) fates).2 := by
  fun_induction wholeFromRead fates version generalizing t with
  | case1 fates ih => exact ih (.stamped t (baseColumns_of_deployed h (by decide)))
  | case2 fates _ ih =>
      have hcolumns : t.columns = baseColumns := baseColumns_of_deployed h (by decide)
      have hdone := resume_reading_adding hcolumns fates
      exact hdone ▸ ih (deployed_addColumns hcolumns)
  | case3 fates hfates =>
      refine (stuck_reading (baseColumns_of_deployed h (by decide)) fun hsome => ?_).ended
      obtain ⟨rest, hrest⟩ := hsome
      exact hfates rest hrest.symm
  | case4 fates version h0 h1 =>
      cases h with
      | unstamped => exact absurd rfl h0
      | stamped => exact absurd rfl h1
      | current t h =>
          have hdone := resume_returned true ⟨2, some t⟩ (.succeeds :: fates)
          exact (congrArg Prod.snd hdone).symm ▸ (Deployed.current t h).ended
  | case5 fates version ih =>
      by_cases hversion : version = 2
      · subst hversion
        cases h with
        | current t h =>
            have hstuck : Stuck ⟨1, some t⟩ := .mk t (by rw [h]; decide)
            exact (stuck_resume .reading hstuck fates).2.ended
      · rw [decide_eq_true hversion, Bool.true_and]
        exact ih (.stamped t (baseColumns_of_deployed h hversion))
  | case6 fates version hsucceeds hfails =>
      cases fates with
      | nil => exact h.ended
      | cons fate fates =>
          cases fates with
          | nil => exact h.ended
          | cons fate' fates =>
              cases fate' with
              | succeeds =>
                  cases fate with
                  | succeeds => exact (hsucceeds _ rfl).elim
                  | fails => exact (hfails _ rfl).elim
              | fails => exact (resume_reading_fails _ _ _).symm ▸ h.ended

/-- Once the store is open and the table is there, the version is read. -/
theorem resume_opening {db : Database} (h : Deployed db) (fates : List Fate) :
    ∃ t, Deployed ⟨db.version, some t⟩ ∧
      initializeRepository db (.succeeds :: .succeeds :: fates) =
        resume (.reading, ⟨db.version, some t⟩) fates := by
  cases h with
  | fresh => exact ⟨_, .unstamped _ rfl, rfl⟩
  | unstamped t h => exact ⟨t, .unstamped t h, rfl⟩
  | stamped t h => exact ⟨t, .stamped t h, rfl⟩
  | current t h => exact ⟨t, .current t h, rfl⟩

theorem ended_initialize {db : Database} (h : Deployed db) (fates : List Fate) :
    Ended (whole db.version fates) (initializeRepository db fates).2 := by
  cases fates with
  | nil => exact h.ended
  | cons opened fates =>
      cases opened with
      | fails => exact (congrArg Prod.snd (resume_returned false db fates)).symm ▸ h.ended
      | succeeds =>
          cases fates with
          | nil => exact h.ended
          | cons created fates =>
              cases created with
              | fails => exact (congrArg Prod.snd (resume_returned false db fates)).symm ▸ h.ended
              | succeeds =>
                  obtain ⟨t, hdeployed, hresume⟩ := resume_opening h fates
                  rw [hresume]
                  exact ended_reading fates db.version hdeployed

/-! ## Attempts in a row -/

theorem resume_current (t : Table) (n : Nat) :
    resume (.reading, ⟨2, some t⟩) (List.replicate (n + 1) .succeeds) =
      (.returned true, ⟨2, some t⟩) :=
  resume_returned true _ (List.replicate n .succeeds)

theorem resume_stamped {t : Table} (h : t.columns = baseColumns) (n : Nat) :
    resume (.reading, ⟨1, some t⟩) (List.replicate (n + 7) .succeeds) =
      (.returned true, ⟨2, some (t.addColumns addedColumns)⟩) :=
  (resume_reading_adding h (List.replicate (n + 1) .succeeds)).trans (resume_current _ n)

/-- In an attempt in which nothing fails, a deployed database is migrated. -/
theorem migrated_of_deployed {db : Database} (h : Deployed db) {n : Nat} (hn : kStatements ≤ n) :
    (initializeRepository db (List.replicate n .succeeds)).1 = .returned true ∧
      Migrated (initializeRepository db (List.replicate n .succeeds)).2 := by
  obtain ⟨m, rfl⟩ := Nat.exists_eq_add_of_le' hn
  have hmigrated {t : Table} (h : t.columns = baseColumns ++ addedColumns) :
      Migrated ⟨2, some t⟩ := ⟨rfl, t, rfl, by rw [h]; decide⟩
  have hadded {t : Table} (h : t.columns = baseColumns) :
      Migrated ⟨2, some (t.addColumns addedColumns)⟩ :=
    hmigrated ((columns_addColumns t _).trans (congrArg (· ++ _) h))
  obtain ⟨t, hdeployed, hresume⟩ := resume_opening h (List.replicate (m + 9) .succeeds)
  rw [show List.replicate (m + kStatements) Fate.succeeds =
    .succeeds :: .succeeds :: List.replicate (m + 9) .succeeds from rfl, hresume]
  generalize db.version = version at hdeployed
  cases hdeployed with
  | unstamped t h =>
      have hdone : resume (.reading, ⟨0, some t⟩) (List.replicate (m + 9) .succeeds) = _ :=
        resume_stamped h m
      rw [hdone]
      exact ⟨rfl, hadded h⟩
  | stamped t h =>
      rw [resume_stamped h (m + 2)]
      exact ⟨rfl, hadded h⟩
  | current t h =>
      rw [resume_current t (m + 8)]
      exact ⟨rfl, hmigrated h⟩

theorem not_returned_of_stuck {db : Database} (h : Stuck db) (fates : List Fate) :
    (initializeRepository db fates).1 ≠ .returned true := by
  intro hreturned
  have hbarred : Barred (resume (.opening, db) fates).1 := (stuck_resume .opening h fates).1
  rw [initializeRepository] at hreturned
  rw [hreturned] at hbarred
  cases hbarred

theorem ended_after {db : Database} (h : Deployed db) (attempts : List (List Fate)) :
    (WholeRun db attempts ∧ Deployed (db.after attempts)) ∨
      (¬ WholeRun db attempts ∧ Stuck (db.after attempts)) := by
  induction attempts generalizing db with
  | nil => exact .inl ⟨trivial, h⟩
  | cons fates attempts ih =>
      obtain ⟨hdeployed, hstuck⟩ := ended_initialize h fates
      cases hwhole : whole db.version fates with
      | true =>
          rcases ih (hdeployed hwhole) with ⟨hrun, hafter⟩ | ⟨hrun, hafter⟩
          · exact .inl ⟨⟨hwhole, hrun⟩, hafter⟩
          · exact .inr ⟨fun hall => hrun hall.2, hafter⟩
      | false =>
          refine .inr ⟨fun hall => ?_, stuck_after (hstuck hwhole) attempts⟩
          rw [hall.1] at hwhole
          cases hwhole

/-- An attempt after others, in which nothing fails, finishes the migration and keeps every row,
if and only if each of the others added the columns of version 2 all together with its stamp or
none of them, and none stamped a database of version 2 with version 1. -/
theorem resumes_iff_whole {db : Database} (h : Deployed db) (attempts : List (List Fate)) :
    Resumes db attempts ↔ WholeRun db attempts := by
  rcases ended_after h attempts with ⟨hrun, hafter⟩ | ⟨hrun, hafter⟩
  · refine iff_of_true (fun n hn => ?_) hrun
    obtain ⟨hreturned, hmigrated⟩ := migrated_of_deployed hafter hn
    exact ⟨hreturned, hmigrated, (keeps_after db attempts).trans (keeps_resume (.opening, _) _)⟩
  · refine iff_of_false (fun hresumes => ?_) hrun
    exact not_returned_of_stuck hafter _ (hresumes kStatements le_rfl).1

theorem resumes_iff_whole_fresh :
    Resumes ⟨0, none⟩ [[.succeeds, .succeeds, .succeeds], [.succeeds, .fails]] ↔
      WholeRun ⟨0, none⟩ [[.succeeds, .succeeds, .succeeds], [.succeeds, .fails]] :=
  resumes_iff_whole .fresh _

/-- An attempt on a database of version 1 ends after the first of the columns. -/
theorem interrupted_after_first_column :
    ¬ ∀ db, Deployed db → ∀ attempts, Resumes db attempts := by
  intro h
  have hwidth : ∀ row ∈ ([] : List (List (Option Cell))), row.length = baseColumns.length :=
    fun row hrow => absurd hrow List.not_mem_nil
  have hreturned := (h ⟨1, some ⟨baseColumns, [], hwidth⟩⟩ (.stamped _ rfl)
    [[.succeeds, .succeeds, .succeeds, .succeeds]] kStatements le_rfl).1
  cases hreturned

end Auth.Migration
