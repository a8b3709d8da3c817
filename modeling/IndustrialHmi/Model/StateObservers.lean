import Mathlib.Data.List.Chain
import Mathlib.Data.List.Induction
import Mathlib.Order.Basic
import IndustrialHmi.Model.SystemStateMachine
import IndustrialHmi.Theory.Since

/-!
# The observers of the system state machine

The producer issues commands and observers register, in any order.  An observer only takes
the state it is called with.  The state, the state last notified and the reason of the last
fault are three records; what ties them together is read off here for every run.
-/

namespace SystemStateMachine

/-- The commands of the producer. -/
inductive Command where
  | start
  | stop
  | reset
  | fault (reason : String)
  | calibrate
  | calibrationDone
  deriving DecidableEq

/-- What a command does to the machine, and the states its observers are called with. -/
def Command.run (m : SystemStateMachine) : Command → SystemStateMachine × List SystemState
  | .start => m.start
  | .stop => m.stop
  | .reset => m.reset
  | .fault reason => m.fault reason
  | .calibrate => m.calibrate
  | .calibrationDone => m.calibrationDone

/-- The event a command dispatches. -/
def Command.event : Command → Evt
  | .start => .StartEvt
  | .stop => .StopEvt
  | .reset => .ResetEvt
  | .fault _ => .FaultEvt
  | .calibrate => .CalibrateEvt
  | .calibrationDone => .CalibrationDoneEvt

/-- What the producer and the observers do. -/
inductive Call where
  | command (c : Command)
  | onStateChanged
  deriving DecidableEq

/-- The machine with its observers, numbered in the order they registered, and the calls
they have had. -/
structure Observed where
  machine : SystemStateMachine := {}
  observers : Nat := 0
  calls : List (Nat × SystemState) := []
  deriving DecidableEq

namespace Observed

def step (o : Observed) : Call → Observed
  | .command c =>
      { o with
        machine := (c.run o.machine).1
        calls := o.calls ++ (c.run o.machine).2.flatMap fun now =>
          (List.range o.observers).map fun cb => (cb, now) }
  | .onStateChanged => { o with observers := o.observers + 1 }

/-- The machine after a run. -/
def after (run : List Call) : Observed :=
  run.foldl step {}

/-- The states one observer was called with. -/
def heard (o : Observed) (cb : Nat) : List SystemState :=
  o.calls.filterMap fun call => if call.1 = cb then some call.2 else none

end Observed

/-! ## What a run should do -/

/-- The commands of a run. -/
def commands (run : List Call) : List Command :=
  run.filterMap fun
    | .command c => some c
    | .onStateChanged => none

/-- The state commands lead to by the table. -/
def stateAfter (s : SystemState) (issued : List Command) : SystemState :=
  issued.foldl (fun s c => processEvent s c.event) s

/-- The new states of the commands that change the state. -/
def changes : SystemState → List Command → List SystemState
  | _, [] => []
  | s, c :: issued =>
      if processEvent s c.event = s then changes s issued
      else processEvent s c.event :: changes (processEvent s c.event) issued

/-- The reason that goes with a command. -/
def Command.reason? : Command → Option String
  | .fault reason => some reason
  | _ => none

/-- The reason of the latest fault since the last reset. -/
def faultSinceReset (issued : List Command) : Option String :=
  ((sinceLast (fun c => c = .reset) issued).filterMap Command.reason?).getLast?

/-- The law of a run. -/
structure RunLaw (run : List Call) : Prop where
  /-- The state is the one the table leads to. -/
  state : (Observed.after run).machine.state = stateAfter .IDLE (commands run)
  /-- An observer hears the new state of each command that changes the state after its
  registration. -/
  heard : ∀ earlier later, run = earlier ++ .onStateChanged :: later →
    (Observed.after run).heard (Observed.after earlier).observers =
      changes (stateAfter .IDLE (commands earlier)) (commands later)
  /-- No observer hears a state twice in a row. -/
  alternating : ∀ cb, ((Observed.after run).heard cb).IsChain (· ≠ ·)
  /-- Only a reset leaves the safe state. -/
  lockout : ∀ earlier call later, run = earlier ++ call :: later →
    (Observed.after earlier).machine.state = .ERROR →
    (Observed.after (earlier ++ [call])).machine.state ≠ .ERROR → call = .command .reset
  /-- The recorded reason is that of the latest fault since the last reset. -/
  lastFaultReason :
    (Observed.after run).machine.lastFaultReason = (faultSinceReset (commands run)).getD ""
  /-- A reason is recorded only in the safe state. -/
  safe : (Observed.after run).machine.lastFaultReason ≠ "" →
    (Observed.after run).machine.state = .ERROR

/-! ## One command -/

@[simp] theorem Command.run_state (m : SystemStateMachine) (c : Command) :
    (c.run m).1.state = processEvent m.state c.event := by
  cases c <;> exact dispatch_state _ _

/-- The state last notified is the current one. -/
def UpToDate (m : SystemStateMachine) : Prop :=
  m.lastNotified = m.state

theorem upToDate_dispatch (m : SystemStateMachine) (e : Evt) : UpToDate (m.dispatch e).1 := by
  rw [dispatch]
  split
  next hsame => exact hsame.symm
  next => rfl

theorem Command.upToDate_run (m : SystemStateMachine) (c : Command) : UpToDate (c.run m).1 := by
  cases c <;> exact upToDate_dispatch _ _

theorem dispatch_told {m : SystemStateMachine} (hm : UpToDate m) (e : Evt) :
    (m.dispatch e).2 =
      if processEvent m.state e = m.state then [] else [processEvent m.state e] := by
  rw [dispatch, hm]
  split <;> rfl

/-- The observers hear of a command exactly when it changes the state. -/
theorem Command.run_told {m : SystemStateMachine} (hm : UpToDate m) (c : Command) :
    (c.run m).2 = if processEvent m.state c.event = m.state then []
      else [processEvent m.state c.event] := by
  cases c with
  | reset => exact dispatch_told (m := { m with lastFaultReason := "" }) hm _
  | fault reason => exact dispatch_told (m := { m with lastFaultReason := reason }) hm _
  | _ => exact dispatch_told hm _

/-! ## The states of a run -/

theorem commands_append (run more : List Call) :
    commands (run ++ more) = commands run ++ commands more :=
  List.filterMap_append

theorem stateAfter_append (s : SystemState) (issued more : List Command) :
    stateAfter s (issued ++ more) = stateAfter (stateAfter s issued) more :=
  List.foldl_append

/-- What changes after some commands is what the rest change from where they lead. -/
theorem changes_append (s : SystemState) (issued more : List Command) :
    changes s (issued ++ more) = changes s issued ++ changes (stateAfter s issued) more := by
  induction issued generalizing s with
  | nil => rfl
  | cons c issued ih =>
      rw [List.cons_append, changes, changes]
      split
      next hsame =>
        rw [ih]
        exact congrArg (fun s' => _ ++ changes (stateAfter s' issued) more) hsame.symm
      next => rw [ih]; rfl

/-- The changes from a state start with another state and never repeat one. -/
theorem isChain_changes (s : SystemState) (issued : List Command) :
    (s :: changes s issued).IsChain (· ≠ ·) := by
  induction issued generalizing s with
  | nil => exact List.IsChain.singleton s
  | cons c issued ih =>
      rw [changes]
      split
      next => exact ih s
      next hnew => exact List.isChain_cons_cons.mpr ⟨fun hsame => hnew hsame.symm, ih _⟩

namespace Observed

theorem after_append (run more : List Call) : after (run ++ more) = more.foldl step (after run) :=
  List.foldl_append

theorem after_concat (run : List Call) (call : Call) :
    after (run ++ [call]) = (after run).step call :=
  after_append run [call]

theorem upToDate_after (run : List Call) : UpToDate (after run).machine := by
  induction run using List.reverseRecOn with
  | nil => rfl
  | append_singleton run call ih =>
      rw [after_concat]
      cases call with
      | command c => exact c.upToDate_run _
      | onStateChanged => exact ih

theorem state_after (run : List Call) :
    (after run).machine.state = stateAfter .IDLE (commands run) := by
  induction run using List.reverseRecOn with
  | nil => rfl
  | append_singleton run call ih =>
      rw [after_concat, commands_append, stateAfter_append, ← ih]
      cases call with
      | command c => exact c.run_state _
      | onStateChanged => rfl

/-! ## What an observer hears -/

/-- In one round of calls each registered observer is called once. -/
theorem heard_round (observers cb : Nat) (now : SystemState) :
    (((List.range observers).map fun other => (other, now)).filterMap fun call =>
      if call.1 = cb then some call.2 else none) = if cb < observers then [now] else [] := by
  induction observers with
  | zero => rfl
  | succ n ih =>
      rw [List.range_succ, List.map_append, List.filterMap_append, ih]
      rcases Nat.lt_trichotomy cb n with hlt | rfl | hgt
      · simp [hlt, Nat.lt_succ_of_lt hlt, hlt.ne']
      · simp
      · simp [hgt.ne, Nat.lt_asymm hgt, Nat.not_lt.mpr (Nat.succ_le_of_lt hgt)]

/-- A command is heard once by each registered observer, if it changes the state. -/
theorem heard_command {o : Observed} (ho : UpToDate o.machine) (cb : Nat) (c : Command) :
    (o.step (.command c)).heard cb =
      o.heard cb ++ if cb < o.observers then changes o.machine.state [c] else [] := by
  rw [heard, step, List.filterMap_append, c.run_told ho, changes]
  refine congrArg (o.heard cb ++ ·) ?_
  split
  next => rw [List.flatMap_nil, changes, ite_self]; rfl
  next => rw [List.flatMap_singleton, heard_round, changes]

theorem observers_mono (run more : List Call) :
    (after run).observers ≤ (after (run ++ more)).observers := by
  induction more using List.reverseRecOn with
  | nil => exact (congrArg (fun r => (after r).observers) (List.append_nil run)).ge
  | append_singleton more call ih =>
      rw [← List.append_assoc, after_concat]
      cases call with
      | command c => exact ih
      | onStateChanged => exact Nat.le_succ_of_le ih

/-- An observer that has not registered has heard nothing. -/
theorem heard_unregistered {run : List Call} {cb : Nat} (hcb : (after run).observers ≤ cb) :
    (after run).heard cb = [] := by
  induction run using List.reverseRecOn with
  | nil => rfl
  | append_singleton run call ih =>
      have hearlier := (observers_mono run [call]).trans hcb
      rw [after_concat]
      cases call with
      | command c =>
          rw [heard_command (upToDate_after run), ih hearlier, if_neg hearlier.not_gt]
          rfl
      | onStateChanged => exact ih hearlier

theorem commands_concat_command (run : List Call) (c : Command) :
    commands (run ++ [.command c]) = commands run ++ [c] :=
  commands_append run [.command c]

theorem commands_concat_onStateChanged (run : List Call) :
    commands (run ++ [.onStateChanged]) = commands run :=
  (commands_append run [.onStateChanged]).trans (List.append_nil _)

/-- From its registration on an observer hears what the commands change. -/
theorem heard_registered (earlier later : List Call) :
    (after (earlier ++ .onStateChanged :: later)).heard (after earlier).observers =
      changes (stateAfter .IDLE (commands earlier)) (commands later) := by
  induction later using List.reverseRecOn with
  | nil =>
      rw [after_concat]
      exact heard_unregistered le_rfl
  | append_singleton later call ih =>
      have hsplit : earlier ++ .onStateChanged :: (later ++ [call]) =
          (earlier ++ .onStateChanged :: later) ++ [call] := by simp
      rw [hsplit, after_concat]
      cases call with
      | command c =>
          have hregistered : (after earlier).observers <
              (after (earlier ++ .onStateChanged :: later)).observers := by
            have hmono := observers_mono (earlier ++ [.onStateChanged]) later
            rw [after_concat, List.append_assoc] at hmono
            exact hmono
          rw [heard_command (upToDate_after _), ih, if_pos hregistered, commands_concat_command,
            changes_append, state_after, commands_append, stateAfter_append]
          rfl
      | onStateChanged =>
          rw [commands_concat_onStateChanged]
          exact ih

/-- A registered observer registered at one point of the run. -/
theorem exists_registration {run : List Call} {cb : Nat} (hcb : cb < (after run).observers) :
    ∃ earlier later, run = earlier ++ .onStateChanged :: later ∧
      (after earlier).observers = cb := by
  induction run using List.reverseRecOn with
  | nil => exact absurd hcb (Nat.not_lt_zero cb)
  | append_singleton run call ih =>
      have hearlier (hlt : cb < (after run).observers) : ∃ earlier later,
          run ++ [call] = earlier ++ .onStateChanged :: later ∧
            (after earlier).observers = cb := by
        obtain ⟨earlier, later, hrun, hat⟩ := ih hlt
        exact ⟨earlier, later ++ [call], by rw [hrun, List.append_assoc, List.cons_append], hat⟩
      rw [after_concat] at hcb
      cases call with
      | command c => exact hearlier hcb
      | onStateChanged =>
          rcases Nat.lt_succ_iff_lt_or_eq.mp hcb with hlt | rfl
          · exact hearlier hlt
          · exact ⟨run, [], rfl, rfl⟩

/-- No observer hears a state twice in a row. -/
theorem isChain_heard (run : List Call) (cb : Nat) : ((after run).heard cb).IsChain (· ≠ ·) := by
  rcases Nat.lt_or_ge cb (after run).observers with hlt | hge
  · obtain ⟨earlier, later, rfl, rfl⟩ := exists_registration hlt
    rw [heard_registered]
    exact (isChain_changes _ _).tail
  · rw [heard_unregistered hge]
    exact List.IsChain.nil

/-! ## The reason of a fault -/

theorem faultSinceReset_concat (issued : List Command) (c : Command) :
    faultSinceReset (issued ++ [c]) = match c with
      | .reset => none
      | .fault reason => some reason
      | _ => faultSinceReset issued := by
  rw [faultSinceReset, sinceLast_concat]
  cases c with
  | reset => rfl
  | fault reason =>
      rw [if_neg (by simp), List.filterMap_append]
      exact List.getLast?_concat
  | _ =>
      rw [if_neg (by simp), List.filterMap_append]
      exact congrArg List.getLast? (List.append_nil _)

theorem lastFaultReason_after (run : List Call) :
    (after run).machine.lastFaultReason = (faultSinceReset (commands run)).getD "" := by
  induction run using List.reverseRecOn with
  | nil => rfl
  | append_singleton run call ih =>
      rw [after_concat]
      cases call with
      | command c =>
          rw [commands_concat_command, faultSinceReset_concat]
          cases c with
          | reset => exact dispatch_lastFaultReason _ _
          | fault reason => exact dispatch_lastFaultReason _ _
          | _ => exact (dispatch_lastFaultReason _ _).trans ih
      | onStateChanged =>
          rw [commands_concat_onStateChanged]
          exact ih

/-- Outside the safe state no reason is recorded. -/
theorem safe_after (run : List Call) (hreason : (after run).machine.lastFaultReason ≠ "") :
    (after run).machine.state = .ERROR := by
  induction run using List.reverseRecOn with
  | nil => exact absurd rfl hreason
  | append_singleton run call ih =>
      rw [after_concat] at hreason ⊢
      cases call with
      | command c =>
          refine (c.run_state _).trans ?_
          cases c with
          | reset => exact absurd (dispatch_lastFaultReason _ _) hreason
          | fault reason => exact processEvent_fault _
          | _ =>
              rw [ih fun hnone => hreason ((dispatch_lastFaultReason _ _).trans hnone)]
              exact processEvent_error Evt.noConfusion
      | onStateChanged => exact ih hreason

/-- Only a reset leads out of the safe state. -/
theorem eq_reset_of_left {o : Observed} {call : Call} (ho : o.machine.state = .ERROR)
    (hleft : (o.step call).machine.state ≠ .ERROR) : call = .command .reset := by
  cases call with
  | command c =>
      cases c with
      | reset => rfl
      | _ =>
          refine absurd ((Command.run_state _ _).trans ?_) hleft
          rw [ho]
          exact processEvent_error Evt.noConfusion
  | onStateChanged => exact absurd ho hleft

end Observed

/-! ## The law -/

/-- Every run of commands and registrations obeys the law. -/
theorem run_law (run : List Call) : RunLaw run where
  state := Observed.state_after run
  heard := by
    rintro earlier later rfl
    exact Observed.heard_registered earlier later
  alternating := Observed.isChain_heard run
  lockout := by
    rintro earlier call later rfl herror hleft
    rw [Observed.after_concat] at hleft
    exact Observed.eq_reset_of_left herror hleft
  lastFaultReason := Observed.lastFaultReason_after run
  safe := Observed.safe_after run

end SystemStateMachine
