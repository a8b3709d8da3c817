import IndustrialHmi.Presenter.UsersPresenter

/-!
# The last administrator

Nobody can remove or disable himself, and only an administrator can do it to somebody else, so
whoever does it stays.  This rests on the session: it has to be that of a row that still has the
role the session says.  An administrator who gives up the role for himself breaks it, if he was
the only one, or if the session is not brought up to date.
-/

open Auth

namespace UsersPresenter

/-- An enabled user of role Admin has the id. -/
def IsAdmin (users : UserTable) (id : ℤ) : Prop :=
  ∃ row, users.row? id = some row ∧ row.role = .Admin ∧ row.enabled = true

def HasAdmin (users : UserTable) : Prop := ∃ id, IsAdmin users id

/-- An enabled user of the table is signed in. -/
def SignedIn (w : World) : Prop :=
  ∃ id row, w.users.row? id = some row ∧ row.enabled = true ∧
    w.session.current = some row.extractUser

/-- An operation, and what it is answered. -/
abbrev Call := Answers × Operation

def World.step (w : World) (call : Call) : World := (perform call.1 call.2 w).2

def World.after (w : World) (calls : List Call) : World := calls.foldl World.step w

/-- If the administrator who is signed in gives up the role, and nothing stops the call, then
there is another one, and the session is brought up to date. -/
def Careful (w : World) (call : Call) : Prop :=
  ∀ me role displayName, manager w.session = some me →
    call.2 = .update me.id role displayName true → role ≠ .Admin →
    isValidDisplayName displayName = true → call.1.readFails = false →
    call.1.writeFails = false →
      call.1.rereadFails = false ∧ ∃ id ≠ me.id, IsAdmin w.users id

def CarefulRun : World → List Call → Prop
  | _, [] => True
  | w, call :: calls => Careful w call ∧ CarefulRun (w.step call) calls

/-! ## The invariant -/

/-- There is an administrator, and the session has the role of the row it is the session of. -/
structure Governed (users : UserTable) (session : Session) : Prop where
  admin : HasAdmin users
  current : ∃ me row, session.current = some me ∧ users.row? me.id = some row ∧
    row.enabled = true ∧ row.role = me.role

variable {users users' : UserTable} {session : Session} {me : User}

/-- A session that has just been read is up to date. -/
theorem governed_of_row {id : ℤ} {row : UserRow} (hadmin : HasAdmin users)
    (hrow : users.row? id = some row) (henabled : row.enabled = true)
    (hcurrent : session.current = some row.extractUser) : Governed users session := by
  have hid : row.extractUser.id = id := UserTable.id_of_row? hrow
  exact ⟨hadmin, row.extractUser, row, hcurrent, hid ▸ hrow, henabled, rfl⟩

theorem governed_of_signedIn {w : World} (hadmin : HasAdmin w.users) (hsession : SignedIn w) :
    Governed w.users w.session := by
  obtain ⟨id, row, hrow, henabled, hcurrent⟩ := hsession
  exact governed_of_row hadmin hrow henabled hcurrent

theorem IsAdmin.of_alters {id other : ℤ} {before after : Option UserRow}
    (halters : users.Alters users' id before after) (hother : other ≠ id)
    (h : IsAdmin users other) : IsAdmin users' other := by
  obtain ⟨row, hrow, hadmin⟩ := h
  exact ⟨row, (halters.elsewhere other hother).trans hrow, hadmin⟩

/-- Who manages users is one of the administrators of the table. -/
theorem Governed.isAdmin (h : Governed users session) (hme : manager session = some me) :
    IsAdmin users me.id := by
  obtain ⟨hcurrent, hrole⟩ := current_of_manager hme
  obtain ⟨me', row, hcurrent', hrow, henabled, hrow_role⟩ := h.current
  obtain rfl : me' = me := Option.some.inj (hcurrent'.symm.trans hcurrent)
  exact ⟨row, hrow, hrow_role.trans hrole, henabled⟩

/-- What is done to somebody else's row leaves the administrator who does it. -/
theorem Governed.of_other {id : ℤ} {before after : Option UserRow}
    (h : Governed users session) (hme : manager session = some me) (hid : me.id ≠ id)
    (halters : users.Alters users' id before after) : Governed users' session := by
  have hadmin : IsAdmin users' me.id := (h.isAdmin hme).of_alters halters hid
  refine ⟨⟨me.id, hadmin⟩, ?_⟩
  obtain ⟨hcurrent, hrole⟩ := current_of_manager hme
  obtain ⟨row, hrow, hrow_role, henabled⟩ := hadmin
  exact ⟨me, row, hcurrent, hrow, henabled, hrow_role.trans hrole.symm⟩

/-- Every row may change in everything but its role and whether it is enabled. -/
theorem Governed.of_kept (h : Governed users session)
    (hkept : ∀ {id row}, users.row? id = some row →
      ∃ row', users'.row? id = some row' ∧ row'.role = row.role ∧ row'.enabled = row.enabled) :
    Governed users' session := by
  obtain ⟨⟨id, row, hrow, hadmin, hon⟩, me, mine, hcurrent, hmine, hmine_on, hmine_role⟩ := h
  obtain ⟨row', hrow', hrole, henabled⟩ := hkept hrow
  obtain ⟨mine', hmine', hmine_role', hmine_on'⟩ := hkept hmine
  exact ⟨⟨id, row', hrow', hrole.trans hadmin, henabled.trans hon⟩, me, mine', hcurrent, hmine',
    hmine_on'.trans hmine_on, hmine_role'.trans hmine_role⟩

theorem Governed.of_same {id : ℤ} {row row' : UserRow} (h : Governed users session)
    (halters : users.Alters users' id (some row) (some row')) (hrole : row'.role = row.role)
    (henabled : row'.enabled = row.enabled) : Governed users' session := by
  refine h.of_kept fun {other r} hr => ?_
  rcases eq_or_ne other id with rfl | hother
  · obtain rfl : row = r := Option.some.inj (halters.before.symm.trans hr)
    exact ⟨row', halters.after, hrole, henabled⟩
  · exact ⟨r, (halters.elsewhere other hother).trans hr, rfl, rfl⟩

theorem Governed.of_new {id : ℤ} {after : Option UserRow} (h : Governed users session)
    (halters : users.Alters users' id none after) : Governed users' session := by
  refine h.of_kept fun {other r} hr => ?_
  have hother : other ≠ id := by
    rintro rfl
    rw [halters.before] at hr
    cases hr
  exact ⟨r, (halters.elsewhere other hother).trans hr, rfl, rfl⟩

/-- A row is written back with another hash. -/
theorem Governed.of_password {id : ℤ} {found : User} {hash now : Text} {rfails wfails : Bool}
    (h : Governed users session) (hfound : users.findById id rfails = some found)
    (husers : users.update { found with passwordHash := hash } now wfails = some users') :
    Governed users' session := by
  obtain ⟨-, row, rfl, halters⟩ := UserTable.alters_update hfound husers rfl
  exact h.of_same halters rfl rfl

theorem Governed.refresh {fails : Bool} (h : Governed users session)
    (hme : session.current = some me) :
    Governed users (refresh session (users.findById me.id fails)) := by
  cases hread : users.findById me.id fails with
  | none => exact h
  | some user =>
      obtain ⟨-, row, hrow, rfl⟩ := UserTable.findById_eq_some hread
      obtain ⟨me', row', hcurrent, hrow', henabled, -⟩ := h.current
      obtain rfl : me' = me := Option.some.inj (hcurrent.symm.trans hme)
      obtain rfl : row' = row := Option.some.inj (hrow'.symm.trans hrow)
      exact governed_of_row h.admin hrow henabled rfl

/-- The row of the user a session is of, and what is read of it again. -/
theorem findById_of_row {id : ℤ} {row : UserRow} (hrow : users.row? id = some row) :
    users.findById id false = some row.extractUser := by
  rw [UserTable.findById, if_neg Bool.false_ne_true, hrow, Option.map_some]

/-- An administrator edits a row that may be his own. -/
theorem Governed.update {answers : Answers} {w : World} {id : ℤ} {role : Role}
    {displayName : Text} {enabled : Bool} {found : User} (h : Governed w.users w.session)
    (hcareful : Careful w (answers, .update id role displayName enabled))
    (hme : manager w.session = some me) (hname : isValidDisplayName displayName = true)
    (hfound : w.users.findById id answers.readFails = some found)
    (hself : found.id = me.id → enabled = true)
    (husers : w.users.update
      { found with role := role, displayName := displayName, enabled := enabled }
      answers.now answers.writeFails = some users') :
    Governed users' (if found.id = me.id then
      UsersPresenter.refresh w.session (users'.findById found.id answers.rereadFails)
        else w.session) := by
  obtain ⟨⟨hread, hwrite⟩, row, rfl, halters⟩ := UserTable.alters_update hfound husers rfl
  have hid : row.extractUser.id = id := UserTable.id_of_row? halters.before
  rw [hid] at hself ⊢
  by_cases hown : id = me.id
  · obtain rfl := hself hown
    subst hown
    rw [if_pos rfl]
    obtain ⟨hcurrent, hmy_role⟩ := current_of_manager hme
    by_cases hrole : role = .Admin
    · subst hrole
      have hgoverned : Governed users' w.session :=
        ⟨⟨me.id, _, halters.after, rfl, rfl⟩, me, _, hcurrent, halters.after, rfl, hmy_role.symm⟩
      exact hgoverned.refresh hcurrent
    · -- he is an administrator no longer, but another one is
      obtain ⟨hreread, other, hother, hadmin⟩ :=
        hcareful me role displayName hme rfl hrole hname hread hwrite
      rw [hreread, findById_of_row halters.after]
      exact governed_of_row ⟨other, hadmin.of_alters halters hother⟩ halters.after rfl rfl
  · rw [if_neg hown]
    exact h.of_other hme (Ne.symm hown) halters

/-- A careful call leaves an administrator, and the session up to date. -/
theorem Governed.step {w : World} {call : Call} (h : Governed w.users w.session)
    (hcareful : Careful w call) :
    Governed (w.step call).users (w.step call).session := by
  obtain ⟨answers, op⟩ := call
  obtain ⟨me, -, hsession, -⟩ := id h.current
  have hends := perform_ends answers op hsession
  rw [World.step]
  generalize perform answers op w = r at hends
  cases hends with
  | refused action details hstatus => exact h
  | @accepted users session action details heffect =>
      show Governed users session
      cases heffect with
      | create hme hcreated => exact h.of_new (UserTable.alters_create hcreated)
      | update found hme hname hfound hself husers =>
          exact h.update hcareful hme hname hfound hself husers
      | remove hme hother husers =>
          obtain ⟨row, halters⟩ := UserTable.alters_remove husers
          exact h.of_other hme hother halters
      | resetPassword hme hfound husers => exact h.of_password hfound husers
      | changeOwnPassword hme hfound husers => exact h.of_password hfound husers
      | setOwnAvatar hme husers =>
          obtain ⟨row, halters⟩ := UserTable.alters_setAvatar husers
          exact (h.of_same halters rfl rfl).refresh hme
      | clearOwnAvatar hme husers =>
          obtain ⟨row, halters⟩ := UserTable.alters_clearAvatar husers
          exact (h.of_same halters rfl rfl).refresh hme

/-- The invariant is kept by no call that is not careful. -/
theorem careful_of_governed_step {w : World} {call : Call} (h : Governed w.users w.session)
    (hstep : Governed (w.step call).users (w.step call).session) : Careful w call := by
  obtain ⟨answers, op⟩ := call
  rintro me role displayName hme rfl hrole hname hread hwrite
  dsimp only at hread hwrite ⊢
  obtain ⟨row, hrow, -⟩ := h.isAdmin hme
  have hid : row.extractUser.id = me.id := UserTable.id_of_row? hrow
  obtain ⟨users, husers⟩ : ∃ users, w.users.update
      { row.extractUser with role := role, displayName := displayName, enabled := true }
      answers.now answers.writeFails = some users := by
    refine ⟨_, if_neg ?_⟩
    rw [hwrite]
    show ¬ (false = true ∨ w.users.row? row.extractUser.id = none)
    rw [hid, hrow]
    simp
  have hdone : (w.step (answers, .update me.id role displayName true)).users = users ∧
      (w.step (answers, .update me.id role displayName true)).session =
        refresh w.session (users.findById me.id answers.rereadFails) := by
    simp only [World.step, perform, UsersPresenter.update, World.demand, World.require, hme,
      hname, hread, findById_of_row hrow, husers, Bool.not_true, Bool.and_false,
      Bool.not_false, if_true]
    rw [if_pos hid, hid]
    exact ⟨rfl, rfl⟩
  rw [hdone.1, hdone.2] at hstep
  obtain ⟨-, row', -, halters⟩ := UserTable.alters_update (findById_of_row hrow) husers rfl
  obtain ⟨⟨other, admin, hadmin, hadmin_role, hadmin_on⟩, mine, mine', hcurrent, hmine, -,
    hmine_role⟩ := hstep
  -- the row of the user who is signed in has the new role
  have hlost {r : UserRow} (hr : users.row? me.id = some r) : r.role ≠ .Admin := by
    rwa [← Option.some.inj (halters.after.symm.trans hr)]
  have hother : other ≠ me.id := by
    rintro rfl
    exact hlost hadmin hadmin_role
  refine ⟨?_, other, hother, admin, ?_, hadmin_role, hadmin_on⟩
  · cases hfails : answers.rereadFails with
    | false => rfl
    | true =>
        rw [hfails] at hcurrent
        obtain ⟨hme_current, hme_role⟩ := current_of_manager hme
        obtain rfl : me = mine := Option.some.inj (hme_current.symm.trans hcurrent)
        exact absurd (hmine_role.trans hme_role) (hlost hmine)
  · exact (halters.elsewhere other hother).symm.trans hadmin

/-! ## Runs -/

theorem Governed.after {calls : List Call} {w : World} (h : Governed w.users w.session)
    (hcareful : CarefulRun w calls) :
    Governed (w.after calls).users (w.after calls).session := by
  induction calls generalizing w with
  | nil => exact h
  | cons call calls ih => exact ih (h.step hcareful.1) hcareful.2

theorem CarefulRun.take {calls : List Call} {w : World} (h : CarefulRun w calls) (n : Nat) :
    CarefulRun w (calls.take n) := by
  induction calls generalizing w n with
  | nil => rw [List.take_nil]; trivial
  | cons call calls ih =>
      cases n with
      | zero => trivial
      | succ n => exact ⟨h.1, ih h.2 n⟩

/-- A run of careful calls leaves an administrator after each of them. -/
theorem admin_remains {w : World} (hadmin : HasAdmin w.users) (hsession : SignedIn w)
    {calls : List Call} (hcareful : CarefulRun w calls) (n : Nat) :
    HasAdmin (w.after (calls.take n)).users := by
  have hgoverned : Governed w.users w.session := governed_of_signedIn hadmin hsession
  have hafter := hgoverned.after (hcareful.take n)
  exact hafter.admin

theorem admin_remains_renamed :
    HasAdmin (oneAdmin.after ([(calm, .update 1 .Admin (ascii "Ada") true),
      (calm, .remove 1)].take 2)).users := by
  refine admin_remains ⟨1, adminRow, rfl, rfl, rfl⟩ ⟨1, adminRow, rfl, rfl, rfl⟩ ?_ 2
  refine ⟨fun me role displayName _ hop hrole => ?_, fun me role displayName _ hop => ?_, trivial⟩
  · exact absurd (Operation.update.inj hop).2.1.symm hrole
  · cases hop

/-- The only administrator takes the role of an operator. -/
theorem only_admin_steps_down :
    ¬ ∀ w : World, HasAdmin w.users → SignedIn w → ∀ (calls : List Call) (n : Nat),
      HasAdmin (w.after (calls.take n)).users := by
  intro h
  obtain ⟨id, row, hrow, hrole, -⟩ := h oneAdmin ⟨1, adminRow, rfl, rfl, rfl⟩
    ⟨1, adminRow, rfl, rfl, rfl⟩ [(calm, .update 1 .Operator [] true)] 1
  have hrows : (oneAdmin.after [(calm, .update 1 .Operator [] true)]).users.rows =
      [adminRow.withUser { adminRow.extractUser with role := .Operator } calm.now] := rfl
  have hmem := FirstMatch.mem_of_find hrow
  rw [List.take_of_length_le (by decide), hrows, List.mem_singleton] at hmem
  rw [hmem] at hrole
  cases hrole

end UsersPresenter
