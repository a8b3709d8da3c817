import IndustrialHmi.Auth.User
import IndustrialHmi.Model.SimulatedModel

/-!
# Operator commands of the dashboard

A handler asks the session of the presenter whether the role permits the command, leaves a
row in the audit trail, and calls the model.  Without a session every command passes, and
with one that nobody is signed in to none does.
-/

open Auth Production

structure DashboardPresenter where
  /-- An audit logger has been set. -/
  audit : Bool
  session : Option Session

namespace DashboardPresenter

/-- What handlers leave behind: the calls of the model, and the audit trail. -/
structure Trace where
  calls : List SimulatedModel.Op := []
  audits : List AuditEvent := []

def hasSession (p : DashboardPresenter) : Bool := p.session.isSome

def emitAudit (p : DashboardPresenter) (category action details outcome : Text) (t : Trace) :
    Trace :=
  match p.audit, p.session with
  | true, some session =>
      let user := session.current.getD {}
      { t with audits := t.audits ++
        [⟨user.username, user.role.name, category, action, details, outcome⟩] }
  | _, _ => t

def checkRole (p : DashboardPresenter) (allowed : Role → Bool) (category action : Text)
    (t : Trace) : Bool × Trace :=
  match p.session with
  | none => (true, t)
  | some session =>
      match session.current with
      | none => (false, t)
      | some user =>
          if allowed user.role then (true, t)
          else (false, p.emitAudit category action [] Outcome.kFailure t)

/-- A handler of one command. -/
def onClicked (p : DashboardPresenter) (allowed : Role → Bool) (action : Text)
    (op : SimulatedModel.Op) (t : Trace) : Trace :=
  if (p.checkRole allowed Category.kProduction action t).1 then
    let t := p.emitAudit Category.kProduction action [] Outcome.kSuccess
      (p.checkRole allowed Category.kProduction action t).2
    { t with calls := t.calls ++ [op] }
  else (p.checkRole allowed Category.kProduction action t).2

def onStartClicked (p : DashboardPresenter) : Trace → Trace :=
  p.onClicked canStartStop (ascii "START") .startProduction

def onStopClicked (p : DashboardPresenter) : Trace → Trace :=
  p.onClicked canStartStop (ascii "STOP") .stopProduction

def onResetRestartClicked (p : DashboardPresenter) : Trace → Trace :=
  p.onClicked canResetSystem (ascii "RESET") .resetSystem

/-- The gate passes without a session, and with a user whose role permits the command. -/
def Passes (p : DashboardPresenter) (allowed : Role → Bool) : Prop :=
  ∀ session, p.session = some session → ∃ user, session.current = some user ∧
    allowed user.role = true

theorem emitAudit_calls (p : DashboardPresenter) (category action details outcome : Text)
    (t : Trace) : (p.emitAudit category action details outcome t).calls = t.calls := by
  unfold emitAudit
  split <;> rfl

/-- A handler calls the model exactly if the gate passes. -/
theorem onClicked_calls (p : DashboardPresenter) (allowed : Role → Bool) (action : Text)
    (op : SimulatedModel.Op) (t : Trace) :
    (p.Passes allowed ∧ (p.onClicked allowed action op t).calls = t.calls ++ [op]) ∨
      (¬ p.Passes allowed ∧ (p.onClicked allowed action op t).calls = t.calls) := by
  rcases hsession : p.session with _ | ⟨_ | user⟩
  · refine .inl ⟨fun session h => ?_, ?_⟩
    · rw [hsession] at h
      cases h
    · simp only [onClicked, checkRole, hsession, if_true, emitAudit_calls]
  · refine .inr ⟨fun h => ?_, ?_⟩
    · obtain ⟨user, huser, -⟩ := h _ hsession
      cases huser
    · simp only [onClicked, checkRole, hsession, Bool.false_eq_true, if_false]
  · cases hallowed : allowed user.role with
    | true =>
        refine .inl ⟨fun session h => ?_, ?_⟩
        · rw [hsession, Option.some.injEq] at h
          exact ⟨user, by rw [← h], hallowed⟩
        · simp only [onClicked, checkRole, hsession, hallowed, if_true, emitAudit_calls]
    | false =>
        refine .inr ⟨fun h => ?_, ?_⟩
        · obtain ⟨user', huser, hrole⟩ := h _ hsession
          cases huser
          rw [hallowed] at hrole
          cases hrole
        · simp only [onClicked, checkRole, hsession, hallowed, Bool.false_eq_true, if_false,
            emitAudit_calls]

end DashboardPresenter
