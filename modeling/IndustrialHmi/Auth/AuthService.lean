import IndustrialHmi.Auth.UserRepository

/-!
# Signing in

A login looks the account up, and asks the hasher only about an account that is there and is
enabled.  What a stranger gets to see of a login is its result and how long it took, which is how
often the hasher was asked.  He must not learn from these which accounts there are; what he does
learn is which of three kinds the account is of.
-/

namespace Auth

inductive LoginResult where
  | Success
  | InvalidCredentials
  | AccountDisabled
  | LockedOut
  | HasherFailure
  deriving DecidableEq

inductive LogLevel where
  | info
  | warn
  | error
  deriving DecidableEq

/-- The account with a username, in whichever case. -/
def UserTable.findByUsername (t : UserTable) (username : Text) (fails : Bool) : Option User :=
  if fails then none
  else (FirstMatch.find (fun r : UserRow => nocase r.username) t.rows
    (nocase username)).map UserRow.extractUser

/-- What the hasher answers about a password and a stored hash; or it throws, with a message. -/
abbrev Hasher := Text → Text → Except Text Bool

/-- The service with what it was given; there may be no logger and no audit trail. -/
structure AuthService where
  users : UserTable
  session : Session := {}
  logger : Option (List (LogLevel × Text)) := none
  audit : Option (List AuditEvent) := none
  /-- The passwords and hashes the hasher was asked about. -/
  asked : List (Text × Text) := []

namespace AuthService

def canonicalUsername (raw : Text) : Text := raw.map toLower

def makeAuthEvent (username : Text) (role : Role) (action details outcome : Text) :
    AuditEvent where
  username := username
  role := role.name
  category := Category.kAuth
  action := action
  details := details
  result := outcome

def log (s : AuthService) (level : LogLevel) (message : Text) : AuthService :=
  { s with logger := s.logger.map (· ++ [(level, message)]) }

def record (s : AuthService) (event : AuditEvent) : AuthService :=
  { s with audit := s.audit.map (· ++ [event]) }

/-- The service once it has asked the hasher. -/
def ask (s : AuthService) (password hash : Text) : AuthService :=
  { s with asked := s.asked ++ [(password, hash)] }

/-- Ends a login that is turned down. -/
def turnDown (s : AuthService) (result : LoginResult) (level : LogLevel) (message canon : Text)
    (role : Role) (details : Text) : LoginResult × AuthService :=
  (result, (s.log level message).record
    (makeAuthEvent canon role (ascii "LOGIN") details Outcome.kFailure))

/-- Ends a login that is let through. -/
def letIn (s : AuthService) (canon : Text) (user : User) : LoginResult × AuthService :=
  (.Success, ({ s with session := ⟨some user⟩ }.log .info
    (ascii "Auth: login OK '" ++ canon ++ ascii "' as " ++ user.role.name)).record
      (makeAuthEvent canon user.role (ascii "LOGIN") [] Outcome.kSuccess))

def login (s : AuthService) (verify : Hasher) (fails : Bool) (username password : Text) :
    LoginResult × AuthService :=
  let canon := canonicalUsername username
  match s.users.findByUsername canon fails with
  | none =>
      s.turnDown .InvalidCredentials .info
        (ascii "Auth: login miss (unknown user '" ++ canon ++ ascii "')") canon .Operator
        (ascii "unknown user")
  | some user =>
      if !user.enabled then
        s.turnDown .AccountDisabled .warn
          (ascii "Auth: rejected disabled account '" ++ canon ++ ascii "'") canon user.role
          (ascii "account disabled")
      else
        let s := s.ask password user.passwordHash
        match verify password user.passwordHash with
        | .error what =>
            s.turnDown .HasherFailure .error
              (ascii "Auth: hasher exception for '" ++ canon ++ ascii "': " ++ what) canon
              user.role (ascii "hasher exception")
        | .ok false =>
            s.turnDown .InvalidCredentials .info
              (ascii "Auth: bad password for '" ++ canon ++ ascii "'") canon user.role
              (ascii "bad password")
        | .ok true => s.letIn canon user

/-! ## What a refused login shows -/

/-- The hasher does not verify the password against the account, if there is one. -/
def Refuses (verify : Hasher) (password : Text) (account : Option User) : Prop :=
  ∀ user ∈ account, verify password user.passwordHash = .ok false

/-- What is answered, and how often the hasher is asked: by whether there is an account, and
whether it is enabled. -/
def shown : Option Bool → LoginResult × Nat
  | none => (.InvalidCredentials, 0)
  | some false => (.AccountDisabled, 0)
  | some true => (.InvalidCredentials, 1)

/-- No two kinds of account show the same. -/
theorem shown_injective : Function.Injective shown := by
  intro a b h
  rcases a with _ | _ | _ <;> rcases b with _ | _ | _ <;>
    first | rfl | exact absurd h (by decide)

section Turned

variable {s : AuthService} {verify : Hasher} {fails : Bool} {username password : Text}

@[simp] theorem turnDown_fst (result : LoginResult) (level : LogLevel) (message canon : Text)
    (role : Role) (details : Text) :
    (s.turnDown result level message canon role details).1 = result := rfl

@[simp] theorem turnDown_asked (result : LoginResult) (level : LogLevel) (message canon : Text)
    (role : Role) (details : Text) :
    (s.turnDown result level message canon role details).2.asked = s.asked := rfl

@[simp] theorem turnDown_session (result : LoginResult) (level : LogLevel)
    (message canon : Text) (role : Role) (details : Text) :
    (s.turnDown result level message canon role details).2.session = s.session := rfl

/-- A login that is not a success leaves the session as it was. -/
theorem login_session (h : (s.login verify fails username password).1 ≠ .Success) :
    (s.login verify fails username password).2.session = s.session := by
  unfold login at h ⊢
  dsimp only at h ⊢
  cases hfound : s.users.findByUsername (canonicalUsername username) fails with
  | none => rfl
  | some user =>
      rw [hfound] at h
      dsimp only at h ⊢
      cases henabled : user.enabled with
      | false => rfl
      | true =>
          rw [henabled] at h
          cases hverify : verify password user.passwordHash with
          | error what => rfl
          | ok verified =>
              cases verified with
              | false => rfl
              | true =>
                  rw [hverify] at h
                  exact absurd rfl h

/-- All that a refused login shows is of which kind the account is. -/
theorem login_refused (account : Option User)
    (hfound : s.users.findByUsername (canonicalUsername username) fails = account)
    (h : Refuses verify password account) :
    (s.login verify fails username password).1 = (shown (account.map User.enabled)).1 ∧
      (s.login verify fails username password).2.asked.length =
        s.asked.length + (shown (account.map User.enabled)).2 := by
  unfold login
  dsimp only
  rw [hfound]
  cases account with
  | none => exact ⟨rfl, rfl⟩
  | some user =>
      have hverify : verify password user.passwordHash = .ok false := h user rfl
      dsimp only [Option.map_some]
      cases user.enabled with
      | false => exact ⟨rfl, rfl⟩
      | true =>
          rw [hverify]
          exact ⟨rfl, by simp [ask, shown]⟩

theorem login_refused_fst (account : Option User)
    (hfound : s.users.findByUsername (canonicalUsername username) fails = account)
    (h : Refuses verify password account) :
    (s.login verify fails username password).1 ≠ .Success := by
  rw [(login_refused account hfound h).1]
  rcases account.map User.enabled with _ | _ | _ <;> decide

end Turned

/-! ## Two stores -/

/-- The two tables are one but for the account of a username: whether it is there, and the role,
the flag and the hash of it. -/
structure DifferOnlyAt (name : Text) (t t' : UserTable) : Prop where
  elsewhere : t.rows.filter (fun r => nocase r.username ≠ nocase name) =
    t'.rows.filter (fun r => nocase r.username ≠ nocase name)
  account : ∀ r ∈ t.rows, ∀ r' ∈ t'.rows, nocase r.username = nocase name →
    nocase r'.username = nocase name →
    { r with passwordHash := r'.passwordHash, role := r'.role, enabled := r'.enabled } = r'

/-- The login cannot tell two tables apart, and leaves whoever is signed in. -/
structure Unrevealing (s : AuthService) (verify : Hasher) (fails : Bool)
    (username password : Text) (t t' : UserTable) : Prop where
  result : ({ s with users := t }.login verify fails username password).1 =
    ({ s with users := t' }.login verify fails username password).1
  asked : ({ s with users := t }.login verify fails username password).2.asked.length =
    ({ s with users := t' }.login verify fails username password).2.asked.length
  session : ({ s with users := t }.login verify fails username password).2.session = s.session
  session' : ({ s with users := t' }.login verify fails username password).2.session = s.session

/-- A refused login reveals nothing exactly when both tables have an enabled account for the
username, or both a disabled one, or neither has one. -/
theorem unrevealing_iff (s : AuthService) (verify : Hasher) (fails : Bool)
    (username password : Text) (t t' : UserTable)
    (h : Refuses verify password (t.findByUsername (canonicalUsername username) fails))
    (h' : Refuses verify password (t'.findByUsername (canonicalUsername username) fails)) :
    Unrevealing s verify fails username password t t' ↔
      (t.findByUsername (canonicalUsername username) fails).map User.enabled =
        (t'.findByUsername (canonicalUsername username) fails).map User.enabled := by
  obtain ⟨hresult, hasked⟩ := login_refused (s := { s with users := t }) _ rfl h
  obtain ⟨hresult', hasked'⟩ := login_refused (s := { s with users := t' }) _ rfl h'
  constructor
  · intro hsame
    refine shown_injective (Prod.ext ?_ ?_)
    · exact hresult.symm.trans (hsame.result.trans hresult')
    · exact Nat.add_left_cancel (hasked.symm.trans (hsame.asked.trans hasked'))
  · intro hkind
    have hshown := congrArg shown hkind
    exact
      { result := by rw [hresult, hresult', hshown]
        asked := by rw [hasked, hasked', hshown]
        session := login_session (login_refused_fst _ rfl h)
        session' := login_session (login_refused_fst _ rfl h') }

/-! ### Accounts that are told apart -/

def nobody : UserTable where
  rows := []
  sequence := 0
  ids_nodup := List.nodup_nil
  id_le_sequence _ h := absurd h List.not_mem_nil
  names_nodup := List.nodup_nil

def aliceRow (enabled : Bool) : UserRow where
  id := 1
  username := ascii "alice"
  passwordHash := ascii "h"
  role := .Operator
  enabled := enabled
  createdAt := []
  displayName := none
  avatarMime := none
  avatarBlob := none
  updatedAt := none

/-- A table of one account. -/
def alice (enabled : Bool) : UserTable := UserTable.single (aliceRow enabled)

def refuseAll : Hasher := fun _ _ => .ok false

/-- Two tables with an enabled account are not told apart, whatever its role is. -/
theorem unrevealing_operator_admin :
    (alice true).findByUsername (canonicalUsername (ascii "Alice")) false ≠ none ∧
      Unrevealing { users := nobody } refuseAll false (ascii "Alice") (ascii "guess")
        (alice true) (UserTable.single { aliceRow true with role := .Admin }) :=
  ⟨by decide, (unrevealing_iff _ _ _ _ _ _ _ (fun _ _ => rfl) fun _ _ => rfl).mpr (by decide)⟩

/-- The hasher is asked about an enabled account and not about one that is not there, and the
result says that an account is disabled. -/
theorem revealing_missing_disabled :
    (∀ password account, Refuses refuseAll password account) ∧
    (DifferOnlyAt (canonicalUsername (ascii "alice")) nobody (alice true) ∧
      ¬Unrevealing { users := nobody } refuseAll false (ascii "alice") (ascii "guess")
        nobody (alice true)) ∧
    (DifferOnlyAt (canonicalUsername (ascii "alice")) (alice false) (alice true) ∧
      ¬Unrevealing { users := nobody } refuseAll false (ascii "alice") (ascii "guess")
        (alice false) (alice true)) := by
  refine ⟨fun _ _ _ _ => rfl, ⟨⟨by decide, ?_⟩, ?_⟩, ⟨⟨by decide, ?_⟩, ?_⟩⟩
  · intro r hr
    cases hr
  · intro h
    exact absurd h.asked (by decide)
  · intro r hr r' hr' _ _
    rw [List.mem_singleton.mp hr, List.mem_singleton.mp hr']
    rfl
  · intro h
    exact absurd h.result (by decide)

end AuthService

end Auth
