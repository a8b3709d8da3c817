import IndustrialHmi.Theory.Json

/-!
# Users and roles

A user is a row of the store, and a session has a copy of the row of whoever is signed in.
Roles are ordered, and what a role may do is what its place in the order allows.
-/

namespace Auth

inductive Role where
  | Operator
  | Maintenance
  | Admin
  deriving DecidableEq

namespace Role

/-- The integer that is stored. -/
def level : Role → Nat
  | Operator => 0
  | Maintenance => 1
  | Admin => 2

def name : Role → Text
  | Operator => ascii "OPERATOR"
  | Maintenance => ascii "MAINTENANCE"
  | Admin => ascii "ADMIN"

end Role

def canStartStop (r : Role) : Bool := Role.Operator.level ≤ r.level
def canResetSystem (r : Role) : Bool := Role.Maintenance.level ≤ r.level
def canManageUsers (r : Role) : Bool := Role.Admin.level ≤ r.level

structure User where
  id : ℤ := -1
  username : Text := []
  passwordHash : Text := []
  role : Role := .Operator
  enabled : Bool := true
  displayName : Text := []
  /-- Empty when there is no avatar. -/
  avatarMime : Text := []
  createdAt : Text := []
  updatedAt : Text := []
  deriving DecidableEq

/-- Who is signed in. -/
structure Session where
  current : Option User := none
  deriving DecidableEq

/-! ## The audit trail -/

structure AuditEvent where
  username : Text
  role : Text
  category : Text
  action : Text
  details : Text
  result : Text
  deriving DecidableEq

namespace Category

def kAuth : Text := ascii "AUTH"
def kProduction : Text := ascii "PRODUCTION"
def kUser : Text := ascii "USER"

end Category

namespace Outcome

def kSuccess : Text := ascii "SUCCESS"
def kFailure : Text := ascii "FAILURE"

end Outcome

end Auth
