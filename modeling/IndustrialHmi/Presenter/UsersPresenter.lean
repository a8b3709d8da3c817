import IndustrialHmi.Auth.UserRepository

/-!
# User management

Each of the seven operations is a row of checks.  A check that does not pass ends the call with
an audit row that says which one it was; a call that passes them all writes one row of the table,
brings the session up to date if the row is its own, and leaves an audit row of what was done.
-/

open Auth

namespace UsersPresenter

/-! ## Validation -/

def kActionCreate : Text := ascii "CREATE"
def kActionUpdate : Text := ascii "UPDATE"
def kActionDelete : Text := ascii "DELETE"
def kActionResetPassword : Text := ascii "RESET_PASSWORD"
def kActionChangePassword : Text := ascii "CHANGE_PASSWORD"
def kActionChangeAvatar : Text := ascii "CHANGE_AVATAR"
def kActionClearAvatar : Text := ascii "CLEAR_AVATAR"

def kMinPasswordLen : Nat := 8
def kMinUsernameLen : Nat := 3
def kMaxUsernameLen : Nat := 32
def kMaxDisplayLen : Nat := 128

/-- Letters and digits are those of the C locale. -/
def isAlpha (c : UInt8) : Bool := (0x41 ≤ c && c ≤ 0x5A) || (0x61 ≤ c && c ≤ 0x7A)
def isAlnum (c : UInt8) : Bool := isAlpha c || (0x30 ≤ c && c ≤ 0x39)

def isAllowedUsernameChar (c : UInt8) : Bool :=
  isAlnum c || c == 0x5F || c == 0x2D || c == 0x2E

def isValidUsername (s : Text) : Bool :=
  kMinUsernameLen ≤ s.length && s.length ≤ kMaxUsernameLen && s.head?.any isAlpha &&
    s.all isAllowedUsernameChar

def isValidPassword (s : Text) : Bool := kMinPasswordLen ≤ s.length
def isValidDisplayName (s : Text) : Bool := s.length ≤ kMaxDisplayLen

def canonicalUsername (s : Text) : Text := s.map toLower

/-! ## A call -/

inductive UsersStatus where
  | Ok
  | Forbidden
  | DuplicateUsername
  | NotFound
  | ValidationFailed
  | SelfMutationRefused
  | WrongPassword
  | HasherFailure
  | StorageFailure
  deriving DecidableEq

structure World where
  users : UserTable
  session : Session
  audits : List AuditEvent := []

/-- What a call is answered by the hasher, the clock and the storage. -/
structure Answers where
  /-- `none` when the hasher throws. -/
  hash : Text → Option Text
  verify : Text → Text → Option Bool
  now : Text
  readFails : Bool
  writeFails : Bool
  /-- Whether the row cannot be read again once it is written. -/
  rereadFails : Bool

/-- The status a call returns, and the world it leaves. -/
abbrev Result := UsersStatus × World

def makeEvent (session : Session) (action details : Text) (success : Bool) : AuditEvent where
  username := (session.current.map User.username).getD (ascii "unknown")
  role := (session.current.map fun user => user.role.name).getD (ascii "UNKNOWN")
  category := Category.kUser
  action := action
  details := details
  result := if success then Outcome.kSuccess else Outcome.kFailure

namespace World

def record (w : World) (action details : Text) (success : Bool) : World :=
  { w with audits := w.audits ++ [makeEvent w.session action details success] }

/-- Ends a call whose check did not pass. -/
def refuse (w : World) (action details : Text) (status : UsersStatus) : Result :=
  (status, w.record action details false)

/-- Ends a call that was carried out. -/
def accept (w : World) (users : UserTable) (session : Session) (action details : Text) : Result :=
  (.Ok, { w with users := users, session := session }.record action details true)

/-- Goes on with the value a check is about, or refuses the call if there is none. -/
def demand {α : Type} (w : World) (x : Option α) (action details : Text) (status : UsersStatus)
    (next : α → Result) : Result :=
  match x with
  | none => w.refuse action details status
  | some a => next a

def require (w : World) (p : Bool) (action details : Text) (status : UsersStatus)
    (next : Result) : Result :=
  if p then next else w.refuse action details status

end World

/-- The user who is signed in, if the role permits to manage users. -/
def manager (session : Session) : Option User :=
  session.current.filter fun me => canManageUsers me.role

/-- The session takes over what was read, if anything was. -/
def refresh (session : Session) (refreshed : Option User) : Session :=
  match refreshed with
  | none => session
  | some user => { current := some user }

def shown (i : ℤ) : Text := ascii (toString i)

/-! ## The operations -/

section Operations

variable (answers : Answers)

def create (username password : Text) (role : Role) (displayName : Text) (w : World) : Result :=
  w.demand (manager w.session) kActionCreate (ascii "attempted create username=" ++ username)
    .Forbidden fun _ =>
  w.require (isValidUsername username && isValidPassword password && isValidDisplayName displayName)
    kActionCreate (ascii "invalid input username=" ++ username) .ValidationFailed <|
  w.demand (answers.hash password) kActionCreate
    (ascii "hasher failure username=" ++ canonicalUsername username) .HasherFailure fun hash =>
  let u : User :=
    { username := canonicalUsername username
      passwordHash := hash
      role := role
      enabled := true
      displayName := displayName }
  w.demand (w.users.create u answers.now answers.writeFails) kActionCreate
    (ascii "duplicate username=" ++ u.username) .DuplicateUsername fun created =>
  w.accept created.2 w.session kActionCreate
    (ascii "id=" ++ shown created.1.id ++ ascii " username=" ++ created.1.username ++
      ascii " role=" ++ created.1.role.name)

def update (id : ℤ) (role : Role) (displayName : Text) (enabled : Bool) (w : World) : Result :=
  w.demand (manager w.session) kActionUpdate (ascii "attempted update id=" ++ shown id)
    .Forbidden fun me =>
  w.require (isValidDisplayName displayName) kActionUpdate
    (ascii "invalid input id=" ++ shown id) .ValidationFailed <|
  w.demand (w.users.findById id answers.readFails) kActionUpdate
    (ascii "not found id=" ++ shown id) .NotFound fun found =>
  w.require (!(found.id == me.id && !enabled)) kActionUpdate
    (ascii "self-disable refused id=" ++ shown id) .SelfMutationRefused <|
  let target := { found with role := role, displayName := displayName, enabled := enabled }
  w.demand (w.users.update target answers.now answers.writeFails) kActionUpdate
    (ascii "storage failure id=" ++ shown id) .StorageFailure fun users =>
  let session :=
    if target.id = me.id then refresh w.session (users.findById target.id answers.rereadFails)
    else w.session
  w.accept users session kActionUpdate
    (ascii "id=" ++ shown target.id ++ ascii " username=" ++ target.username ++
      ascii " role=" ++ target.role.name ++ ascii " enabled=" ++ ascii (toString target.enabled))

def remove (id : ℤ) (w : World) : Result :=
  w.demand (manager w.session) kActionDelete (ascii "attempted delete id=" ++ shown id)
    .Forbidden fun me =>
  w.require (me.id != id) kActionDelete (ascii "self-delete refused id=" ++ shown id)
    .SelfMutationRefused <|
  w.demand (w.users.findById id answers.readFails) kActionDelete
    (ascii "not found id=" ++ shown id) .NotFound fun target =>
  w.demand (w.users.remove id answers.writeFails) kActionDelete
    (ascii "storage failure id=" ++ shown id) .StorageFailure fun users =>
  w.accept users w.session kActionDelete
    (ascii "id=" ++ shown target.id ++ ascii " username=" ++ target.username ++
      ascii " role=" ++ target.role.name)

def resetPassword (id : ℤ) (newPassword : Text) (w : World) : Result :=
  w.demand (manager w.session) kActionResetPassword (ascii "attempted reset id=" ++ shown id)
    .Forbidden fun _ =>
  w.require (isValidPassword newPassword) kActionResetPassword
    (ascii "invalid input id=" ++ shown id) .ValidationFailed <|
  w.demand (w.users.findById id answers.readFails) kActionResetPassword
    (ascii "not found id=" ++ shown id) .NotFound fun target =>
  w.demand (answers.hash newPassword) kActionResetPassword
    (ascii "hasher failure id=" ++ shown id) .HasherFailure fun hash =>
  w.demand (w.users.update { target with passwordHash := hash } answers.now answers.writeFails)
    kActionResetPassword (ascii "storage failure id=" ++ shown id) .StorageFailure fun users =>
  w.accept users w.session kActionResetPassword
    (ascii "id=" ++ shown target.id ++ ascii " username=" ++ target.username)

def changeOwnPassword (oldPassword newPassword : Text) (w : World) : Result :=
  match w.session.current with
  | none => (.Forbidden, w)
  | some me =>
      w.require (isValidPassword newPassword) kActionChangePassword
        (ascii "invalid input id=" ++ shown me.id) .ValidationFailed <|
      w.demand (w.users.findById me.id answers.readFails) kActionChangePassword
        (ascii "self vanished id=" ++ shown me.id) .NotFound fun stored =>
      w.demand (answers.verify oldPassword stored.passwordHash) kActionChangePassword
        (ascii "hasher failure id=" ++ shown me.id) .HasherFailure fun oldOk =>
      w.require oldOk kActionChangePassword (ascii "wrong old password id=" ++ shown me.id)
        .WrongPassword <|
      w.demand (answers.hash newPassword) kActionChangePassword
        (ascii "hasher failure id=" ++ shown me.id) .HasherFailure fun hash =>
      w.demand (w.users.update { stored with passwordHash := hash } answers.now answers.writeFails)
        kActionChangePassword (ascii "storage failure id=" ++ shown me.id) .StorageFailure
        fun users =>
      w.accept users w.session kActionChangePassword
        (ascii "id=" ++ shown me.id ++ ascii " username=" ++ me.username)

def setOwnAvatar (bytes mime : Text) (w : World) : Result :=
  match w.session.current with
  | none => (.Forbidden, w)
  | some me =>
      let said := ascii "id=" ++ shown me.id ++ ascii " mime=" ++ mime ++ ascii " bytes=" ++
        shown bytes.length
      w.demand (w.users.setAvatar me.id bytes mime answers.now answers.writeFails)
        kActionChangeAvatar (ascii "rejected " ++ said) .ValidationFailed fun users =>
      w.accept users (refresh w.session (users.findById me.id answers.rereadFails))
        kActionChangeAvatar said

def clearOwnAvatar (w : World) : Result :=
  match w.session.current with
  | none => (.Forbidden, w)
  | some me =>
      w.demand (w.users.clearAvatar me.id answers.now answers.writeFails) kActionClearAvatar
        (ascii "storage failure id=" ++ shown me.id) .StorageFailure fun users =>
      w.accept users (refresh w.session (users.findById me.id answers.rereadFails))
        kActionClearAvatar (ascii "id=" ++ shown me.id ++ ascii " username=" ++ me.username)

end Operations

inductive Operation where
  | create (username password : Text) (role : Role) (displayName : Text)
  | update (id : ℤ) (role : Role) (displayName : Text) (enabled : Bool)
  | remove (id : ℤ)
  | resetPassword (id : ℤ) (newPassword : Text)
  | changeOwnPassword (oldPassword newPassword : Text)
  | setOwnAvatar (bytes mime : Text)
  | clearOwnAvatar
  deriving DecidableEq

def perform (answers : Answers) : Operation → World → Result
  | .create username password role displayName =>
      create answers username password role displayName
  | .update id role displayName enabled => update answers id role displayName enabled
  | .remove id => remove answers id
  | .resetPassword id newPassword => resetPassword answers id newPassword
  | .changeOwnPassword oldPassword newPassword =>
      changeOwnPassword answers oldPassword newPassword
  | .setOwnAvatar bytes mime => setOwnAvatar answers bytes mime
  | .clearOwnAvatar => clearOwnAvatar answers

/-! ## What a call comes to -/

section Ends

variable {w : World} {P : UserTable → Session → Prop}

/-- A call is refused, or it is carried out with what `P` says of the table and the session. -/
inductive Ends (w : World) (P : UserTable → Session → Prop) : Result → Prop where
  | refused (action details : Text) {status : UsersStatus} (hstatus : status ≠ .Ok) :
      Ends w P (w.refuse action details status)
  | accepted {users : UserTable} {session : Session} (action details : Text)
      (h : P users session) : Ends w P (w.accept users session action details)

theorem Ends.demand {α : Type} {x : Option α} {action details : Text} {status : UsersStatus}
    {next : α → Result} (hnext : ∀ a, x = some a → Ends w P (next a))
    (hstatus : status ≠ .Ok := by decide) :
    Ends w P (w.demand x action details status next) := by
  cases x with
  | none => exact .refused action details hstatus
  | some a => exact hnext a rfl

theorem Ends.require {p : Bool} {action details : Text} {status : UsersStatus} {next : Result}
    (hnext : p = true → Ends w P next) (hstatus : status ≠ .Ok := by decide) :
    Ends w P (w.require p action details status next) := by
  cases p with
  | false => exact .refused action details hstatus
  | true => exact hnext rfl

end Ends

/-- What an operation that is carried out does to the table and the session. -/
inductive Effect (answers : Answers) (w : World) : Operation → UserTable → Session → Prop where
  | create {username password displayName hash : Text} {role : Role} {me created : User}
      {users : UserTable} (hme : manager w.session = some me)
      (hcreated : w.users.create
        { username := canonicalUsername username, passwordHash := hash, role := role,
          enabled := true, displayName := displayName }
        answers.now answers.writeFails = some (created, users)) :
      Effect answers w (.create username password role displayName) users w.session
  | update {id : ℤ} {role : Role} {displayName : Text} {enabled : Bool} {me : User}
      {users : UserTable} (found : User) (hme : manager w.session = some me)
      (hname : isValidDisplayName displayName = true)
      (hfound : w.users.findById id answers.readFails = some found)
      (hself : found.id = me.id → enabled = true)
      (husers : w.users.update
        { found with role := role, displayName := displayName, enabled := enabled }
        answers.now answers.writeFails = some users) :
      Effect answers w (.update id role displayName enabled) users
        (if found.id = me.id then
          refresh w.session (users.findById found.id answers.rereadFails) else w.session)
  | remove {id : ℤ} {me : User} {users : UserTable} (hme : manager w.session = some me)
      (hother : me.id ≠ id) (husers : w.users.remove id answers.writeFails = some users) :
      Effect answers w (.remove id) users w.session
  | resetPassword {id : ℤ} {newPassword hash : Text} {me found : User} {users : UserTable}
      (hme : manager w.session = some me)
      (hfound : w.users.findById id answers.readFails = some found)
      (husers : w.users.update { found with passwordHash := hash } answers.now
        answers.writeFails = some users) :
      Effect answers w (.resetPassword id newPassword) users w.session
  | changeOwnPassword {oldPassword newPassword hash : Text} {me found : User}
      {users : UserTable} (hme : w.session.current = some me)
      (hfound : w.users.findById me.id answers.readFails = some found)
      (husers : w.users.update { found with passwordHash := hash } answers.now
        answers.writeFails = some users) :
      Effect answers w (.changeOwnPassword oldPassword newPassword) users w.session
  | setOwnAvatar {bytes mime : Text} {me : User} {users : UserTable}
      (hme : w.session.current = some me)
      (husers : w.users.setAvatar me.id bytes mime answers.now answers.writeFails = some users) :
      Effect answers w (.setOwnAvatar bytes mime) users
        (refresh w.session (users.findById me.id answers.rereadFails))
  | clearOwnAvatar {me : User} {users : UserTable} (hme : w.session.current = some me)
      (husers : w.users.clearAvatar me.id answers.now answers.writeFails = some users) :
      Effect answers w .clearOwnAvatar users
        (refresh w.session (users.findById me.id answers.rereadFails))

theorem current_of_manager {session : Session} {me : User} (h : manager session = some me) :
    session.current = some me ∧ me.role = .Admin := by
  obtain ⟨hcurrent, hrole⟩ := Option.filter_eq_some_iff.mp h
  refine ⟨hcurrent, ?_⟩
  cases hme : me.role with
  | Admin => rfl
  | Operator => rw [hme] at hrole; cases hrole
  | Maintenance => rw [hme] at hrole; cases hrole

/-- A call of somebody who is signed in is refused, or it has the effect of its operation. -/
theorem perform_ends (answers : Answers) (op : Operation) {w : World} {me : User}
    (hsession : w.session.current = some me) :
    Ends w (Effect answers w op) (perform answers op w) := by
  cases op with
  | create username password role displayName =>
      refine .demand ?_
      intro me hme
      refine .require fun _ => .demand fun hash _ => .demand ?_
      intro created hcreated
      exact .accepted _ _ (.create hme hcreated)
  | update id role displayName enabled =>
      refine .demand ?_
      intro me hme
      refine .require ?_
      intro hname
      refine .demand ?_
      intro found hfound
      refine .require ?_
      intro hself
      have hkept (hid : found.id = me.id) : enabled = true := by
        rw [hid, beq_self_eq_true, Bool.true_and, Bool.not_not] at hself
        exact hself
      refine .demand ?_
      intro users husers
      exact .accepted _ _ (.update found hme hname hfound hkept husers)
  | remove id =>
      refine .demand ?_
      intro me hme
      refine .require ?_
      intro hother
      refine .demand fun found _ => .demand ?_
      intro users husers
      exact .accepted _ _ (.remove hme (bne_iff_ne.mp hother) husers)
  | resetPassword id newPassword =>
      refine .demand ?_
      intro me hme
      refine .require fun _ => .demand ?_
      intro found hfound
      refine .demand fun hash _ => .demand ?_
      intro users husers
      exact .accepted _ _ (.resetPassword hme hfound husers)
  | changeOwnPassword oldPassword newPassword =>
      simp only [perform, changeOwnPassword, hsession]
      refine .require fun _ => .demand ?_
      intro found hfound
      -- neither the old password nor the new hash matters for what is written
      refine .demand fun oldOk _ => .require fun _ => .demand fun hash _ => .demand ?_
      intro users husers
      exact .accepted _ _ (.changeOwnPassword hsession hfound husers)
  | setOwnAvatar bytes mime =>
      simp only [perform, setOwnAvatar, hsession]
      refine .demand ?_
      intro users husers
      exact .accepted _ _ (.setOwnAvatar hsession husers)
  | clearOwnAvatar =>
      simp only [perform, clearOwnAvatar, hsession]
      refine .demand ?_
      intro users husers
      exact .accepted _ _ (.clearOwnAvatar hsession husers)

/-! ## A store with one user -/

def adminRow : UserRow where
  id := 1
  username := ascii "admin"
  passwordHash := ascii "$argon2id$"
  role := .Admin
  enabled := true
  createdAt := ascii "2026-01-01T00:00:00Z"
  displayName := none
  avatarMime := none
  avatarBlob := none
  updatedAt := some (ascii "2026-01-01T00:00:00Z")

/-- He is signed in. -/
def oneAdmin : World where
  users := .single adminRow
  session := { current := some adminRow.extractUser }

/-- Nothing fails. -/
def calm : Answers where
  hash password := some (ascii "$argon2id$" ++ password)
  verify password hash := some (hash = ascii "$argon2id$" ++ password)
  now := ascii "2026-01-02T00:00:00Z"
  readFails := false
  writeFails := false
  rereadFails := false

end UsersPresenter
