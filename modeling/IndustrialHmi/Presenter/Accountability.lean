import IndustrialHmi.Auth.AuthService
import IndustrialHmi.Presenter.DashboardPresenter
import IndustrialHmi.Presenter.UsersPresenter
import IndustrialHmi.Theory.Since

/-!
# Who did what

The front end signs users in and out, lets them act on the dashboard and manage each other, and
all of it leaves rows in one audit trail.  A session is opened by a password that was verified
against an enabled account and by nothing else, it lasts until it is closed or another is opened,
and the model is called by nobody but whoever is signed in, as far as the role goes.  The trail
tells these calls one by one, and the attempts that were refused.
-/

open Auth Production

namespace Auth

def canCalibrate (r : Role) : Bool := Role.Maintenance.level ≤ r.level
def canInjectFault (r : Role) : Bool := Role.Maintenance.level ≤ r.level

def Category.kEquipment : Text := ascii "EQUIPMENT"

namespace Session

def currentUsername (s : Session) : Text := (s.current.map User.username).getD (ascii "unknown")

end Session

namespace AuthService

def logout (s : AuthService) : AuthService :=
  let s := s.log .info (ascii "Auth: logout '" ++ s.session.currentUsername ++ ascii "'")
  let user := s.session.current.getD {}
  let s := s.record (makeAuthEvent user.username user.role (ascii "LOGOUT") [] Outcome.kSuccess)
  { s with session := {} }

end AuthService

end Auth

namespace DashboardPresenter

/-! ## The other handlers -/

def onCalibrationClicked (p : DashboardPresenter) : Trace → Trace :=
  p.onClicked canCalibrate (ascii "CALIBRATE") .startCalibration

/-- The gate of an action that has details. -/
def checkRoleFor (p : DashboardPresenter) (allowed : Role → Bool)
    (category action details : Text) (t : Trace) : Bool × Trace :=
  match p.session with
  | none => (true, t)
  | some session =>
      match session.current with
      | none => (false, t)
      | some user =>
          if allowed user.role then (true, t)
          else (false, p.emitAudit category action details Outcome.kFailure t)

/-- The fault is injected by whoever put the application together, if at all. -/
def onInjectFaultClicked (p : DashboardPresenter) (faultInjector : Option SimulatedModel.Op)
    (t : Trace) : Trace :=
  if (p.checkRole canInjectFault Category.kProduction (ascii "INJECT_FAULT") t).1 then
    let t := p.emitAudit Category.kProduction (ascii "INJECT_FAULT") [] Outcome.kSuccess
      (p.checkRole canInjectFault Category.kProduction (ascii "INJECT_FAULT") t).2
    { t with calls := t.calls ++ faultInjector.toList }
  else (p.checkRole canInjectFault Category.kProduction (ascii "INJECT_FAULT") t).2

def onEquipmentToggled (p : DashboardPresenter) (equipmentId : Nat) (enabled : Bool)
    (t : Trace) : Trace :=
  let details := ascii "equipment id " ++ ascii (toString equipmentId)
  let action := if enabled then ascii "ENABLE" else ascii "DISABLE"
  if (p.checkRoleFor canStartStop Category.kEquipment action details t).1 then
    let t := p.emitAudit Category.kEquipment action details Outcome.kSuccess
      (p.checkRoleFor canStartStop Category.kEquipment action details t).2
    { t with calls := t.calls ++ [.setEquipmentEnabled equipmentId enabled] }
  else (p.checkRoleFor canStartStop Category.kEquipment action details t).2

end DashboardPresenter

namespace Accountability

/-- What can be clicked. -/
inductive Action where
  | start
  | stop
  | reset
  | calibrate
  | injectFault
  | toggle (equipmentId : Nat) (enabled : Bool)

namespace Action

def handler (faultInjector : Option SimulatedModel.Op) (p : DashboardPresenter) :
    Action → DashboardPresenter.Trace → DashboardPresenter.Trace
  | start => p.onStartClicked
  | stop => p.onStopClicked
  | reset => p.onResetRestartClicked
  | calibrate => p.onCalibrationClicked
  | injectFault => p.onInjectFaultClicked faultInjector
  | toggle equipmentId enabled => p.onEquipmentToggled equipmentId enabled

/-- What an action needs, what its row says, and what it makes the model do. -/
def permits : Action → Role → Bool
  | start | stop | toggle _ _ => canStartStop
  | reset => canResetSystem
  | calibrate => canCalibrate
  | injectFault => canInjectFault

def category : Action → Text
  | toggle _ _ => Category.kEquipment
  | _ => Category.kProduction

def name : Action → Text
  | start => ascii "START"
  | stop => ascii "STOP"
  | reset => ascii "RESET"
  | calibrate => ascii "CALIBRATE"
  | injectFault => ascii "INJECT_FAULT"
  | toggle _ enabled => if enabled then ascii "ENABLE" else ascii "DISABLE"

def details : Action → Text
  | toggle equipmentId _ => ascii "equipment id " ++ ascii (toString equipmentId)
  | _ => []

def ops (faultInjector : Option SimulatedModel.Op) : Action → List SimulatedModel.Op
  | start => [.startProduction]
  | stop => [.stopProduction]
  | reset => [.resetSystem]
  | calibrate => [.startCalibration]
  | injectFault => faultInjector.toList
  | toggle equipmentId enabled => [.setEquipmentEnabled equipmentId enabled]

def row (a : Action) (user : User) (outcome : Text) : AuditEvent :=
  ⟨user.username, user.role.name, a.category, a.name, a.details, outcome⟩

end Action

/-! ## The front end -/

structure Hmi where
  world : UsersPresenter.World
  calls : List SimulatedModel.Op := []

inductive Event where
  | login (username password : Text) (verify : Hasher) (fails : Bool)
  | logout
  | click (a : Action)
  | manage (answers : UsersPresenter.Answers) (op : UsersPresenter.Operation)

namespace Hmi

/-- The parts share the store, the session and the trail. -/
def auth (h : Hmi) : AuthService where
  users := h.world.users
  session := h.world.session
  audit := some h.world.audits

def ofAuth (h : Hmi) (s : AuthService) : Hmi :=
  { h with world := { h.world with session := s.session, audits := s.audit.getD [] } }

def dashboard (h : Hmi) : DashboardPresenter := { audit := true, session := some h.world.session }

def step (faultInjector : Option SimulatedModel.Op) (h : Hmi) : Event → Hmi
  | .login username password verify fails =>
      h.ofAuth (h.auth.login verify fails username password).2
  | .logout => h.ofAuth h.auth.logout
  | .click a =>
      let t := a.handler faultInjector h.dashboard { calls := h.calls, audits := h.world.audits }
      { world := { h.world with audits := t.audits }, calls := t.calls }
  | .manage answers op => { h with world := (UsersPresenter.perform answers op h.world).2 }

def after (faultInjector : Option SimulatedModel.Op) (h : Hmi) (run : List Event) : Hmi :=
  run.foldl (step faultInjector) h

end Hmi

/-! ## The law -/

section Law

variable (faultInjector : Option SimulatedModel.Op)

/-- Nobody is signed in, and nothing has happened. -/
def fresh (users : UserTable) : Hmi := { world := { users, session := {} } }

/-- The events of a run, each with the front end it finds. -/
def trace : Hmi → List Event → List (Hmi × Event)
  | _, [] => []
  | h, e :: run => (h, e) :: trace (h.step faultInjector e) run

/-- Who clicked what, while somebody was signed in. -/
def clicked? : Hmi × Event → Option (User × Action)
  | (h, .click a) => h.world.session.current.map (·, a)
  | _ => none

def clicks (h : Hmi) (run : List Event) : List (User × Action) :=
  (trace faultInjector h run).filterMap clicked?

def permitted (click : User × Action) : Bool := click.2.permits click.1.role

def isActionRow (e : AuditEvent) : Bool :=
  e.category = Category.kProduction ∨ e.category = Category.kEquipment

/-- The event is a login with the password of an enabled account with this id. -/
def SignsIn (h : Hmi) (id : ℤ) (before : List Event) (e : Event) : Prop :=
  ∃ username password verify fails user, e = .login username password verify fails ∧
    (h.after faultInjector before).world.users.findByUsername
      (AuthService.canonicalUsername username) fails = some user ∧
    user.enabled = true ∧ verify password user.passwordHash = .ok true ∧ user.id = id

/-- The event closes the session, or opens another. -/
def SignsOut (h : Hmi) (before : List Event) (e : Event) : Prop :=
  e = .logout ∨ ∃ id, SignsIn faultInjector h id before e

structure Accounted (h : Hmi) (run : List Event) : Prop where
  /-- A user is signed in since a login with his password. -/
  signedIn : ∀ id, (h.after faultInjector run).world.session.current.map User.id = some id ↔
    Since (SignsIn faultInjector h id) (SignsOut faultInjector h) run
  /-- The model has had the calls of the permitted clicks, in order, and no others. -/
  calls : (h.after faultInjector run).calls =
    ((clicks faultInjector h run).filter permitted).flatMap (·.2.ops faultInjector)
  /-- The trail tells every click of somebody signed in, and whether it was permitted. -/
  audited : (h.after faultInjector run).world.audits.filter isActionRow =
    (clicks faultInjector h run).map fun c =>
      c.2.row c.1 (if permitted c then Outcome.kSuccess else Outcome.kFailure)
  /-- Whoever clicked was signed in by his password then. -/
  authenticated : ∀ before a later, run = before ++ .click a :: later →
    ∀ user, clicked? (h.after faultInjector before, .click a) = some (user, a) →
      Since (SignsIn faultInjector h user.id) (SignsOut faultInjector h) before

end Law

/-! ## One event -/

/-- What a click leaves behind. -/
theorem handler_eq (faultInjector : Option SimulatedModel.Op) (h : Hmi) (a : Action)
    (t : DashboardPresenter.Trace) : a.handler faultInjector h.dashboard t =
      match h.world.session.current with
      | none => t
      | some user =>
          if a.permits user.role then
            { calls := t.calls ++ a.ops faultInjector
              audits := t.audits ++ [a.row user Outcome.kSuccess] }
          else { t with audits := t.audits ++ [a.row user Outcome.kFailure] } := by
  cases hcurrent : h.world.session.current with
  | none => cases a <;> simp [Action.handler, DashboardPresenter.onStartClicked,
      DashboardPresenter.onStopClicked, DashboardPresenter.onResetRestartClicked,
      DashboardPresenter.onCalibrationClicked, DashboardPresenter.onInjectFaultClicked,
      DashboardPresenter.onEquipmentToggled, DashboardPresenter.onClicked,
      DashboardPresenter.checkRole, DashboardPresenter.checkRoleFor, Hmi.dashboard, hcurrent]
  | some user =>
      cases a <;> simp only [Action.handler, DashboardPresenter.onStartClicked,
        DashboardPresenter.onStopClicked, DashboardPresenter.onResetRestartClicked,
        DashboardPresenter.onCalibrationClicked, DashboardPresenter.onInjectFaultClicked,
        DashboardPresenter.onEquipmentToggled, DashboardPresenter.onClicked,
        DashboardPresenter.checkRole, DashboardPresenter.checkRoleFor, Hmi.dashboard, hcurrent,
        Action.permits] <;> split <;> simp_all [DashboardPresenter.emitAudit, Action.row,
          Action.ops, Action.category, Action.name, Action.details]

/-- A login lets in exactly with the password of an enabled account, and leaves one row. -/
theorem login_cases (s : AuthService) (verify : Hasher) (fails : Bool) (username password : Text) :
    (∃ e : AuditEvent, e.category = Category.kAuth ∧
        (s.login verify fails username password).2.audit = s.audit.map (· ++ [e])) ∧
      ((∃ user, s.users.findByUsername (AuthService.canonicalUsername username) fails = some user ∧
          user.enabled = true ∧ verify password user.passwordHash = .ok true ∧
          (s.login verify fails username password).2.session = ⟨some user⟩) ∨
        (∀ user, s.users.findByUsername (AuthService.canonicalUsername username) fails = some user →
            ¬ (user.enabled = true ∧ verify password user.passwordHash = .ok true)) ∧
          (s.login verify fails username password).2.session = s.session) := by
  rw [AuthService.login]
  dsimp only
  cases hfound : s.users.findByUsername (AuthService.canonicalUsername username) fails with
  | none => exact ⟨⟨_, rfl, rfl⟩, .inr ⟨nofun, rfl⟩⟩
  | some user =>
      dsimp only
      cases henabled : user.enabled with
      | false =>
          refine ⟨⟨_, rfl, rfl⟩, .inr ⟨fun user' huser hboth => ?_, rfl⟩⟩
          obtain rfl := Option.some.inj huser
          exact absurd (henabled.symm.trans hboth.1) Bool.false_ne_true
      | true =>
          rw [Bool.not_true, if_neg Bool.false_ne_true]
          rcases hverify : verify password user.passwordHash with what | _ | _
          · refine ⟨⟨_, rfl, rfl⟩, .inr ⟨fun user' huser hboth => ?_, rfl⟩⟩
            obtain rfl := Option.some.inj huser
            exact absurd (hverify.symm.trans hboth.2) nofun
          · refine ⟨⟨_, rfl, rfl⟩, .inr ⟨fun user' huser hboth => ?_, rfl⟩⟩
            obtain rfl := Option.some.inj huser
            exact absurd (hverify.symm.trans hboth.2) (by simp)
          · exact ⟨⟨_, rfl, rfl⟩, .inl ⟨user, rfl, henabled, hverify, rfl⟩⟩

/-- A session goes on: with nobody, or with a user of the same id. -/
def SameUser (session session' : Session) : Prop :=
  session'.current.map User.id = session.current.map User.id

theorem sameUser_refresh {session : Session} {me : User} (hme : session.current = some me)
    {users : UserTable} {fails : Bool} {id : ℤ} (hid : id = me.id) :
    SameUser session (UsersPresenter.refresh session (users.findById id fails)) := by
  cases hfound : users.findById id fails with
  | none => rfl
  | some user =>
      obtain ⟨-, row, hrow, rfl⟩ := UserTable.findById_eq_some hfound
      rw [SameUser, hme, Option.map_some, ← hid, ← UserTable.id_of_row? hrow]
      rfl

theorem manager_of_signedOut {session : Session} (h : session.current = none) :
    UsersPresenter.manager session = none := by
  rw [UsersPresenter.manager, h]
  rfl

/-- Managing users leaves rows of its own kind, and nobody else is signed in by it. -/
theorem perform_cases (answers : UsersPresenter.Answers) (op : UsersPresenter.Operation)
    (w : UsersPresenter.World) :
    (∃ rows : List AuditEvent, (∀ e ∈ rows, e.category = Category.kUser) ∧
        (UsersPresenter.perform answers op w).2.audits = w.audits ++ rows) ∧
      SameUser w.session (UsersPresenter.perform answers op w).2.session := by
  cases hcurrent : w.session.current with
  | none =>
      have hmanager := manager_of_signedOut hcurrent
      cases op <;> simp only [UsersPresenter.perform, UsersPresenter.create, UsersPresenter.update,
        UsersPresenter.remove, UsersPresenter.resetPassword, UsersPresenter.changeOwnPassword,
        UsersPresenter.setOwnAvatar, UsersPresenter.clearOwnAvatar, hmanager, hcurrent,
        UsersPresenter.World.demand] <;>
        first
          | exact ⟨⟨[_], by simp [UsersPresenter.makeEvent], rfl⟩, rfl⟩
          | exact ⟨⟨[], by simp, (List.append_nil _).symm⟩, rfl⟩
  | some me =>
      cases hends : UsersPresenter.perform answers op w with
      | mk status world =>
          have h := UsersPresenter.perform_ends answers op hcurrent
          rw [hends] at h
          cases h with
          | refused action details hstatus =>
              exact ⟨⟨[_], by simp [UsersPresenter.makeEvent], rfl⟩, rfl⟩
          | accepted action details h =>
              refine ⟨⟨[_], by simp [UsersPresenter.makeEvent], rfl⟩, ?_⟩
              cases h with
              | update found hme hname hfound hself husers =>
                  have hme' := (UsersPresenter.current_of_manager hme).1
                  change SameUser w.session (if _ then _ else _)
                  split
                  next hown => exact sameUser_refresh hme' hown
                  next => rfl
              | setOwnAvatar hme husers => exact sameUser_refresh hme rfl
              | clearOwnAvatar hme husers => exact sameUser_refresh hme rfl
              | _ => rfl

/-! ## Runs -/

section Runs

variable (faultInjector : Option SimulatedModel.Op)

theorem after_concat (h : Hmi) (run : List Event) (e : Event) :
    h.after faultInjector (run ++ [e]) = (h.after faultInjector run).step faultInjector e :=
  List.foldl_append

theorem trace_concat (h : Hmi) (run : List Event) (e : Event) :
    trace faultInjector h (run ++ [e]) =
      trace faultInjector h run ++ [(h.after faultInjector run, e)] := by
  induction run generalizing h with
  | nil => rfl
  | cons first run ih => exact congrArg ((h, first) :: ·) (ih _)

theorem clicks_concat (h : Hmi) (run : List Event) (e : Event) :
    clicks faultInjector h (run ++ [e]) =
      clicks faultInjector h run ++ (clicked? (h.after faultInjector run, e)).toList := by
  rw [clicks, trace_concat, List.filterMap_append]
  cases hclick : clicked? (h.after faultInjector run, e) <;> simp [hclick, clicks]

/-- Whom a click leaves signed in. -/
theorem session_click (h : Hmi) (a : Action) :
    (h.step faultInjector (.click a)).world.session = h.world.session := rfl

/-- A login that lets in says who is signed in then. -/
theorem signsIn_login {h : Hmi} {run : List Event} {username password : Text} {verify : Hasher}
    {fails : Bool} {id : ℤ} :
    SignsIn faultInjector h id run (.login username password verify fails) ↔
      ∃ user, (h.after faultInjector run).world.users.findByUsername
          (AuthService.canonicalUsername username) fails = some user ∧
        user.enabled = true ∧ verify password user.passwordHash = .ok true ∧ user.id = id := by
  constructor
  · rintro ⟨username', password', verify', fails', user, he, hrest⟩
    cases he
    exact ⟨user, hrest⟩
  · rintro ⟨user, hrest⟩
    exact ⟨username, password, verify, fails, user, rfl, hrest⟩

theorem not_signsIn {h : Hmi} {run : List Event} {e : Event} {id : ℤ}
    (he : ∀ username password verify fails, e ≠ .login username password verify fails) :
    ¬ SignsIn faultInjector h id run e := by
  rintro ⟨username, password, verify, fails, user, heq, -⟩
  exact he _ _ _ _ heq

theorem signedIn_step (h : Hmi) (run : List Event) (e : Event) (id : ℤ) :
    (h.after faultInjector (run ++ [e])).world.session.current.map User.id = some id ↔
      SignsIn faultInjector h id run e ∨
        (h.after faultInjector run).world.session.current.map User.id = some id ∧
          ¬ SignsOut faultInjector h run e := by
  rw [after_concat]
  cases e with
  | login username password verify fails =>
      obtain ⟨-, ⟨user, hfound, henabled, hverify, hsession⟩ | ⟨hnot, hsession⟩⟩ :=
        login_cases (h.after faultInjector run).auth verify fails username password
      · have hstarts (i : ℤ) :
            SignsIn faultInjector h i run (.login username password verify fails) ↔
              user.id = i := by
          rw [signsIn_login]
          constructor
          · rintro ⟨user', hfound', -, -, rfl⟩
            exact congrArg User.id (Option.some.inj (hfound.symm.trans hfound'))
          · rintro rfl
            exact ⟨user, hfound, henabled, hverify, rfl⟩
        have hends : SignsOut faultInjector h run (.login username password verify fails) :=
          .inr ⟨user.id, (hstarts _).mpr rfl⟩
        have hcurrent : ((h.after faultInjector run).step faultInjector
            (.login username password verify fails)).world.session.current = some user :=
          congrArg Session.current hsession
        rw [hcurrent, hstarts, or_iff_left fun hboth => hboth.2 hends]
        exact Option.some_inj
      · have hstarts (i : ℤ) :
            ¬ SignsIn faultInjector h i run (.login username password verify fails) := by
          rw [signsIn_login]
          rintro ⟨user, hfound, henabled, hverify, -⟩
          exact hnot user hfound ⟨henabled, hverify⟩
        have hends : ¬ SignsOut faultInjector h run (.login username password verify fails) := by
          rintro (hlogout | ⟨i, hi⟩)
          · cases hlogout
          · exact hstarts i hi
        have hcurrent : ((h.after faultInjector run).step faultInjector
            (.login username password verify fails)).world.session.current =
              (h.after faultInjector run).world.session.current := congrArg Session.current hsession
        rw [hcurrent, or_iff_right (hstarts id), and_iff_left hends]
  | logout =>
      have hends : SignsOut faultInjector h run .logout := .inl rfl
      rw [or_iff_right (not_signsIn faultInjector (by simp))]
      exact iff_of_false (fun hsome => nomatch hsome) fun hboth => hboth.2 hends
  | click a =>
      have hends : ¬ SignsOut faultInjector h run (.click a) := by
        rintro (hlogout | ⟨i, hi⟩)
        · cases hlogout
        · exact not_signsIn faultInjector (by simp) hi
      rw [or_iff_right (not_signsIn faultInjector (by simp)), and_iff_left hends, session_click]
  | manage answers op =>
      have hends : ¬ SignsOut faultInjector h run (.manage answers op) := by
        rintro (hlogout | ⟨i, hi⟩)
        · cases hlogout
        · exact not_signsIn faultInjector (by simp) hi
      have hsame : SameUser _ _ :=
        (perform_cases answers op (h.after faultInjector run).world).2
      rw [or_iff_right (not_signsIn faultInjector (by simp)), and_iff_left hends]
      exact hsame ▸ Iff.rfl

theorem signedIn_iff (users : UserTable) (run : List Event) (id : ℤ) :
    ((fresh users).after faultInjector run).world.session.current.map User.id = some id ↔
      Since (SignsIn faultInjector (fresh users) id) (SignsOut faultInjector (fresh users)) run :=
  Since.iff_of_step (P := fun run =>
      ((fresh users).after faultInjector run).world.session.current.map User.id = some id)
    nofun (fun run e => signedIn_step faultInjector (fresh users) run e id) run

theorem isActionRow_of_category {e : AuditEvent}
    (h : e.category = Category.kAuth ∨ e.category = Category.kUser) : isActionRow e = false := by
  have hauth : Category.kAuth ≠ Category.kProduction ∧ Category.kAuth ≠ Category.kEquipment := by
    decide
  have huser : Category.kUser ≠ Category.kProduction ∧ Category.kUser ≠ Category.kEquipment := by
    decide
  rcases h with h | h <;> simp [isActionRow, h, hauth, huser]

theorem isActionRow_row (a : Action) (user : User) (outcome : Text) :
    isActionRow (a.row user outcome) = true := by
  cases a <;> simp [isActionRow, Action.row, Action.category]

/-- The model's calls and the rows of actions grow with the clicks alone. -/
theorem told_step (h : Hmi) (run : List Event) (e : Event) :
    (h.after faultInjector (run ++ [e])).calls = (h.after faultInjector run).calls ++
        (((clicked? (h.after faultInjector run, e)).toList.filter permitted).flatMap
          (·.2.ops faultInjector)) ∧
      (h.after faultInjector (run ++ [e])).world.audits.filter isActionRow =
        (h.after faultInjector run).world.audits.filter isActionRow ++
          (clicked? (h.after faultInjector run, e)).toList.map fun c =>
            c.2.row c.1 (if permitted c then Outcome.kSuccess else Outcome.kFailure) := by
  rw [after_concat]
  generalize h.after faultInjector run = h
  cases e with
  | login username password verify fails =>
      obtain ⟨⟨row, hrow, haudit⟩, -⟩ := login_cases h.auth verify fails username password
      have haudits : (h.step faultInjector (.login username password verify fails)).world.audits =
          h.world.audits ++ [row] := congrArg (Option.getD · []) haudit
      refine ⟨(List.append_nil _).symm, ?_⟩
      rw [haudits, List.filter_append]
      simp [clicked?, isActionRow_of_category (.inl hrow)]
  | logout =>
      refine ⟨(List.append_nil _).symm, ?_⟩
      have haudits : (h.step faultInjector .logout).world.audits = h.world.audits ++
          [AuthService.makeAuthEvent (h.world.session.current.getD {}).username
            (h.world.session.current.getD {}).role (ascii "LOGOUT") [] Outcome.kSuccess] := rfl
      rw [haudits, List.filter_append]
      simp [clicked?, isActionRow_of_category (.inl (rfl : (AuthService.makeAuthEvent
        (h.world.session.current.getD {}).username (h.world.session.current.getD {}).role
        (ascii "LOGOUT") [] Outcome.kSuccess).category = _))]
  | click a =>
      rw [Hmi.step, handler_eq]
      cases hcurrent : h.world.session.current with
      | none => simp [clicked?, hcurrent]
      | some user =>
          cases hpermits : a.permits user.role <;>
            simp [clicked?, hcurrent, permitted, hpermits, isActionRow_row]
  | manage answers op =>
      obtain ⟨⟨rows, hrows, haudits⟩, -⟩ := perform_cases answers op h.world
      refine ⟨(List.append_nil _).symm, ?_⟩
      have hnone : rows.filter isActionRow = [] := List.filter_eq_nil_iff.mpr fun e he => by
        simp [isActionRow_of_category (.inr (hrows e he))]
      change (UsersPresenter.perform answers op h.world).2.audits.filter isActionRow = _
      rw [haudits, List.filter_append, hnone]
      rfl

/-- Every run from a front end that nobody is signed in to is accounted for. -/
theorem accounted (users : UserTable) (run : List Event) :
    Accounted faultInjector (fresh users) run where
  signedIn := signedIn_iff faultInjector users run
  calls := by
    induction run using List.reverseRecOn with
    | nil => rfl
    | append_singleton run e ih =>
        rw [(told_step faultInjector (fresh users) run e).1, ih, clicks_concat, List.filter_append,
          List.flatMap_append]
  audited := by
    induction run using List.reverseRecOn with
    | nil => rfl
    | append_singleton run e ih =>
        rw [(told_step faultInjector (fresh users) run e).2, ih, clicks_concat, List.map_append]
  authenticated := by
    rintro before a later - user hclick
    refine (signedIn_iff faultInjector users before user.id).mp ?_
    obtain ⟨user', huser, hpair⟩ := Option.map_eq_some_iff.mp hclick
    obtain rfl := congrArg Prod.fst hpair
    rw [huser]
    rfl

end Runs

end Accountability
