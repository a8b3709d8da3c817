import Mathlib.Data.List.Basic

/-!
# The system state machine

The production lifecycle as a table of rows.  An event without a row in the current
state is ignored.  The observers hear of a command only when the state is not the one
they heard of last; a fault records its reason before the table is consulted.
-/

inductive SystemState where
  | IDLE
  | RUNNING
  | ERROR
  | CALIBRATION
  deriving DecidableEq

namespace SystemStateMachine

inductive Evt where
  | StartEvt
  | StopEvt
  | ResetEvt
  | CalibrateEvt
  | CalibrationDoneEvt
  | FaultEvt
  deriving DecidableEq

/-- The rows of the transition table. -/
def SystemStateTable : List (SystemState × Evt × SystemState) :=
  [ -- from idle
   (.IDLE, .StartEvt, .RUNNING),
   (.IDLE, .CalibrateEvt, .CALIBRATION),
   (.IDLE, .ResetEvt, .IDLE),
   -- from running
   (.RUNNING, .StopEvt, .IDLE),
   (.RUNNING, .ResetEvt, .IDLE),
   (.RUNNING, .StartEvt, .RUNNING),
   -- from calibration
   (.CALIBRATION, .CalibrationDoneEvt, .IDLE),
   (.CALIBRATION, .StopEvt, .IDLE),
   (.CALIBRATION, .ResetEvt, .IDLE),
   -- safe state
   (.IDLE, .FaultEvt, .ERROR),
   (.RUNNING, .FaultEvt, .ERROR),
   (.CALIBRATION, .FaultEvt, .ERROR),
   (.ERROR, .ResetEvt, .IDLE)]

/-- The state after an event. -/
def processEvent (s : SystemState) (e : Evt) : SystemState :=
  match SystemStateTable.find? fun row => row.1 = s ∧ row.2.1 = e with
  | some row => row.2.2
  | none => s

end SystemStateMachine

structure SystemStateMachine where
  state : SystemState := .IDLE
  lastNotified : SystemState := .IDLE
  lastFaultReason : String := ""
  deriving DecidableEq

namespace SystemStateMachine

/-! ## Commands

Each gives the machine and the states its observers are called with. -/

/-- An event is processed and the observers hear of a change. -/
def dispatch (m : SystemStateMachine) (e : Evt) : SystemStateMachine × List SystemState :=
  let now := processEvent m.state e
  if now = m.lastNotified then ({ m with state := now }, [])
  else ({ m with state := now, lastNotified := now }, [now])

def start (m : SystemStateMachine) := m.dispatch .StartEvt

def stop (m : SystemStateMachine) := m.dispatch .StopEvt

def reset (m : SystemStateMachine) := { m with lastFaultReason := "" }.dispatch .ResetEvt

def fault (m : SystemStateMachine) (reason : String) :=
  { m with lastFaultReason := reason }.dispatch .FaultEvt

def calibrate (m : SystemStateMachine) := m.dispatch .CalibrateEvt

def calibrationDone (m : SystemStateMachine) := m.dispatch .CalibrationDoneEvt

/-! ## What the table says -/

@[simp] theorem dispatch_state (m : SystemStateMachine) (e : Evt) :
    (m.dispatch e).1.state = processEvent m.state e := by
  rw [dispatch]
  split <;> rfl

@[simp] theorem dispatch_lastFaultReason (m : SystemStateMachine) (e : Evt) :
    (m.dispatch e).1.lastFaultReason = m.lastFaultReason := by
  rw [dispatch]
  split <;> rfl

/-- A fault leads to the safe state from every state. -/
@[simp] theorem processEvent_fault (s : SystemState) :
    processEvent s .FaultEvt = .ERROR := by
  cases s <;> rfl

/-- A reset leads to idle from every state. -/
@[simp] theorem processEvent_reset (s : SystemState) :
    processEvent s .ResetEvt = .IDLE := by
  cases s <;> rfl

/-- In the safe state every other event is ignored. -/
theorem processEvent_error {e : Evt} (he : e ≠ .ResetEvt) :
    processEvent .ERROR e = .ERROR := by
  cases e with
  | ResetEvt => exact absurd rfl he
  | _ => rfl

/-- Only a fault leads to the safe state. -/
theorem error_of_processEvent {s : SystemState} {e : Evt} (h : processEvent s e = .ERROR) :
    s = .ERROR ∨ e = .FaultEvt := by
  cases s <;> cases e <;> first | exact .inl rfl | exact .inr rfl | cases h

/-- An event that is neither a fault nor a reset keeps what the recorded reason is in the
safe state. -/
theorem lastFaultReason_dispatch {m : SystemStateMachine} {e : Evt} {reason : String}
    (he : e ≠ .FaultEvt) (hm : m.state = .ERROR → m.lastFaultReason = reason)
    (h : (m.dispatch e).1.state = .ERROR) : (m.dispatch e).1.lastFaultReason = reason := by
  rw [dispatch_state] at h
  rw [dispatch_lastFaultReason]
  exact hm ((error_of_processEvent h).resolve_right he)

end SystemStateMachine
