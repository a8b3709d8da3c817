import Mathlib.Data.List.Induction
import IndustrialHmi.Model.SimulatedModel

/-!
# The lock-out after a fault

In the safe state the transition table ignores every command but a reset.  What a
command does outside the table is not ignored: starting production advances the work
unit whenever it has an operation left, and sets a line to processing, whatever the
state is.
-/

namespace Production

namespace SimulatedModel

/-- The reason of the latest fault of a run. -/
def latestFault (ops : List Op) : String :=
  ops.foldl (fun reason op =>
    match op with
    | .triggerFault latest => latest
    | _ => reason) ""

/-- A command of the operator that is not a reset. -/
inductive OperatorCommand where
  | startProduction
  | stopProduction
  | startCalibration
  deriving DecidableEq

def OperatorCommand.op : OperatorCommand → Op
  | .startProduction => .startProduction
  | .stopProduction => .stopProduction
  | .startCalibration => .startCalibration

/-- The model after commands of the operator. -/
def afterCommands (c : SimulatedModel) (commands : List OperatorCommand) : SimulatedModel :=
  c.after (commands.map OperatorCommand.op)

/-- The safe state is held: state and reason are those of the fault, work unit and
equipment those of an earlier model. -/
structure Held (c c' : SimulatedModel) (reason : String) : Prop where
  state : c'.stateMachine.state = .ERROR
  lastFaultReason : c'.stateMachine.lastFaultReason = reason
  currentWorkUnit : c'.currentWorkUnit = c.currentWorkUnit
  equipmentStatuses : c'.equipmentStatuses = c.equipmentStatuses

/-- The safe state is held after each of the commands. -/
def LockedOut (c : SimulatedModel) (reason : String) (commands : List OperatorCommand) : Prop :=
  ∀ issued, issued <+: commands → c.Held (c.afterCommands issued) reason

/-! ## The reason of a fault -/

/-- In the safe state the recorded reason is that of the latest fault. -/
theorem lastFaultReason_after (ops : List Op)
    (h : (({} : SimulatedModel).after ops).stateMachine.state = .ERROR) :
    (({} : SimulatedModel).after ops).stateMachine.lastFaultReason = latestFault ops := by
  induction ops using List.reverseRecOn with
  | nil => cases h
  | append_singleton ops op ih =>
      rw [after_append, after_cons, after_nil, step_stateMachine] at h ⊢
      rw [latestFault, List.foldl_append, List.foldl_cons, List.foldl_nil]
      cases op with
      | startProduction => exact SystemStateMachine.lastFaultReason_dispatch (by decide) ih h
      | stopProduction => exact SystemStateMachine.lastFaultReason_dispatch (by decide) ih h
      | startCalibration => exact SystemStateMachine.lastFaultReason_dispatch (by decide) ih h
      | resetSystem => simp [Op.command, SystemStateMachine.reset] at h
      | initializeDemoData => simp [Op.command, SystemStateMachine.reset] at h
      | triggerFault reason => simp [Op.command, SystemStateMachine.fault]
      | _ => exact ih h

/-! ## One command -/

/-- In the safe state a command leaves the state machine's state and reason. -/
theorem command_error {m : SystemStateMachine} (h : m.state = .ERROR)
    (command : OperatorCommand) :
    (command.op.command m).state = .ERROR ∧
      (command.op.command m).lastFaultReason = m.lastFaultReason := by
  cases command <;>
    simp [OperatorCommand.op, Op.command, SystemStateMachine.start, SystemStateMachine.stop,
      SystemStateMachine.calibrate, h, SystemStateMachine.processEvent_error]

theorem currentWorkUnit_startProduction {c : SimulatedModel}
    (h : c.currentWorkUnit.completedOperations < c.currentWorkUnit.totalOperations) :
    c.startProduction.1.currentWorkUnit.completedOperations =
      c.currentWorkUnit.completedOperations + 1 := by
  simp [startProduction, simulateProductionCycle, h]

theorem startProduction_of_complete {c : SimulatedModel}
    (h : c.currentWorkUnit.totalOperations ≤ c.currentWorkUnit.completedOperations) :
    c.startProduction.1 = { c with stateMachine := c.stateMachine.start.1 } := by
  simp [startProduction, simulateProductionCycle, not_lt.mpr h]

theorem Held.step {c c' : SimulatedModel} {reason : String} (held : c.Held c' reason)
    {command : OperatorCommand}
    (hcommand : command ≠ .startProduction ∨
      c.currentWorkUnit.totalOperations ≤ c.currentWorkUnit.completedOperations) :
    c.Held (c'.step command.op).1 reason := by
  obtain ⟨hstate, hreason⟩ := command_error held.state command
  refine ⟨?_, ?_, ?_, ?_⟩
  · rw [step_stateMachine, hstate]
  · rw [step_stateMachine, hreason, held.lastFaultReason]
  all_goals
    cases command with
    | startProduction =>
        have hcomplete := hcommand.resolve_left (absurd rfl)
        rw [← held.currentWorkUnit] at hcomplete
        simp only [OperatorCommand.op, SimulatedModel.step, startProduction_of_complete hcomplete]
        first | exact held.currentWorkUnit | exact held.equipmentStatuses
    | _ => first | exact held.currentWorkUnit | exact held.equipmentStatuses

/-! ## Sequences of commands -/

theorem afterCommands_append (c : SimulatedModel) (issued more : List OperatorCommand) :
    c.afterCommands (issued ++ more) = (c.afterCommands issued).afterCommands more := by
  rw [afterCommands, List.map_append, after_append]
  rfl

/-- Commands that cannot advance production hold the safe state. -/
theorem lockedOut_of_startProduction_inert {c : SimulatedModel} {reason : String}
    {commands : List OperatorCommand} (hstart : c.Held c reason)
    (hinert : .startProduction ∉ commands ∨
      c.currentWorkUnit.totalOperations ≤ c.currentWorkUnit.completedOperations) :
    c.LockedOut reason commands := by
  intro issued hissued
  induction issued using List.reverseRecOn with
  | nil => exact hstart
  | append_singleton issued command ih =>
      have hmem : command ∈ commands :=
        hissued.subset (List.mem_append_right issued (List.mem_singleton_self command))
      have hheld : c.Held (c.afterCommands issued) reason :=
        ih ((List.prefix_append issued [command]).trans hissued)
      rw [afterCommands_append]
      refine hheld.step (hinert.imp_left ?_)
      rintro habsent rfl
      exact habsent hmem

/-- In every run that ends in the safe state, and for every sequence of commands: the
lock-out holds exactly when none of them starts production or the work unit has no
operation left. -/
theorem error_lockout (ops : List Op) (commands : List OperatorCommand)
    (h : (({} : SimulatedModel).after ops).stateMachine.state = .ERROR) :
    (({} : SimulatedModel).after ops).LockedOut (latestFault ops) commands ↔
      .startProduction ∉ commands ∨
        (({} : SimulatedModel).after ops).currentWorkUnit.totalOperations ≤
          (({} : SimulatedModel).after ops).currentWorkUnit.completedOperations := by
  set c := ({} : SimulatedModel).after ops
  constructor
  · intro hlocked
    by_contra hneither
    obtain ⟨hmem, hleft⟩ := not_or.mp hneither
    rw [not_not] at hmem
    obtain ⟨issued, rest, hcommands⟩ := List.append_of_mem hmem
    have hbefore : c.Held (c.afterCommands issued) (latestFault ops) :=
      hlocked issued ⟨_, hcommands.symm⟩
    have hafter : c.Held (c.afterCommands (issued ++ [.startProduction])) (latestFault ops) :=
      hlocked _ ⟨rest, by rw [hcommands, List.append_assoc, List.singleton_append]⟩
    -- starting production here completes one more operation
    have hadvance := currentWorkUnit_startProduction (c := c.afterCommands issued)
      (by rw [hbefore.currentWorkUnit]; exact not_le.mp hleft)
    have hsame := congrArg WorkUnit.completedOperations
      (hafter.currentWorkUnit.trans hbefore.currentWorkUnit.symm)
    rw [afterCommands_append] at hsame
    exact absurd (hadvance.symm.trans hsame) (by omega)
  · exact lockedOut_of_startProduction_inert ⟨h, lastFaultReason_after ops h, rfl, rfl⟩

theorem error_lockout_stop :
    (({} : SimulatedModel).after [.initializeDemoData, .triggerFault "jam"]).LockedOut "jam"
      [.stopProduction, .startCalibration] :=
  (error_lockout [.initializeDemoData, .triggerFault "jam"]
    [.stopProduction, .startCalibration] (by decide)).mpr (.inl (by decide))

/-- Starting production after a fault of the demo line completes an operation. -/
theorem start_advances_in_error :
    (({} : SimulatedModel).after [.initializeDemoData, .triggerFault "jam"]).stateMachine.state =
        .ERROR ∧
      ¬ (({} : SimulatedModel).after [.initializeDemoData, .triggerFault "jam"]).LockedOut
          (latestFault [.initializeDemoData, .triggerFault "jam"]) [.startProduction] := by
  refine ⟨by decide, fun hlocked => ?_⟩
  have hsame := (hlocked [.startProduction] List.prefix_rfl).currentWorkUnit
  exact absurd (congrArg WorkUnit.completedOperations hsame) (by decide)

end SimulatedModel

end Production
