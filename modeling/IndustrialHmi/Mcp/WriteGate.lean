import IndustrialHmi.Presenter.DashboardPresenter
import IndustrialHmi.Mcp.McpServer

/-!
# The gate of the equipment commands

Whether a command is carried out is decided by the presenter, on the session it was given.
What the agent is told is decided by the server, on its own.  The server refuses when one
of the two is missing, and asks nothing more of the presenter's.  Effect and answer agree
over a run exactly if, for every command that comes up in it, the two sessions permit it or
refuse it alike (`gate_iff`).
-/

namespace Mcp

open Auth Production JsonText

variable {ρ : Type}

/-! ## The wiring -/

def EquipmentCommand.op : EquipmentCommand → SimulatedModel.Op
  | .Start => .startProduction
  | .Stop => .stopProduction
  | .ResetRestart => .resetSystem

/-- The handler that a command is routed to. -/
def EquipmentCommand.handler : EquipmentCommand → DashboardPresenter →
    DashboardPresenter.Trace → DashboardPresenter.Trace
  | .Start => DashboardPresenter.onStartClicked
  | .Stop => DashboardPresenter.onStopClicked
  | .ResetRestart => DashboardPresenter.onResetRestartClicked

/-- A server session, and a presenter with a session of its own, next to other services. -/
structure Wiring (ρ : Type) where
  base : Services ρ
  server : Session
  presenter : DashboardPresenter
  writeEnabled : Bool

namespace Wiring

def services (c : Wiring ρ) : Services (ρ × DashboardPresenter.Trace) where
  library := c.base.library
  casts := c.base.casts
  positive := c.base.positive
  divide := c.base.divide
  snapshot w := ((c.base.snapshot w.1).1, (c.base.snapshot w.1).2, w.2)
  query field entityId range w :=
    ((c.base.query field entityId range w.1).1, (c.base.query field entityId range w.1).2, w.2)
  production w := ((c.base.production w.1).1, (c.base.production w.1).2, w.2)
  session _ := c.server
  hasSession _ := c.presenter.hasSession
  invoke command w := (w.1, command.handler c.presenter w.2)

end Wiring

/-- A request that has come up, and what became of it. -/
structure Exchange (σ : Type) where
  params : Json
  before : σ
  reply : Option (Except McpErrorCode Json)
  after : σ

/-- Requests answered one after the other, up to an exception. -/
def exchanges {σ : Type} (S : Services σ) (writeEnabled : Bool) :
    List Json → σ → List (Exchange σ)
  | [], _ => []
  | params :: requests, w =>
      let answer := handleToolsCall S params writeEnabled w
      ⟨params, w, answer.1, answer.2⟩ ::
        if answer.1.isSome then exchanges S writeEnabled requests answer.2 else []

/-- The calls of the model while the request was answered. -/
def Exchange.reached (e : Exchange (ρ × DashboardPresenter.Trace)) : List SimulatedModel.Op :=
  e.after.2.calls.drop e.before.2.calls.length

/-- What reaches the model is permitted to the user of the server session, and a command is
answered with success exactly if it reaches the model. -/
structure Wiring.Gates (c : Wiring ρ) (e : Exchange (ρ × DashboardPresenter.Trace)) : Prop where
  permitted : ∀ op ∈ e.reached, c.writeEnabled = true ∧ ∃ user, c.server.current = some user ∧
    ∃ command : EquipmentCommand, op = command.op ∧ command.allowed user.role = true
  truthful : e.params.value Json.asText (ascii "name") [] = some kEquipmentCommandTool →
    ((∃ result, e.reply = some (.ok result)) ↔ e.reached ≠ [])

/-- The command that a request names. -/
def commandOf (params : Json) (writeEnabled : Bool) : Option EquipmentCommand :=
  if writeEnabled && params.value Json.asText (ascii "name") [] = some kEquipmentCommandTool then
    match parseEquipmentCommandArgs (argumentsOf params) with
    | some (.ok command) => some command
    | _ => none
  else none

/-- If there are both sessions and a user of the first, a command is permitted to the user
of the second exactly if it is to that of the first. -/
def Wiring.Agree (c : Wiring ρ) (command : EquipmentCommand) : Prop :=
  ∀ user session, c.server.current = some user → c.presenter.session = some session →
    ((∃ user', session.current = some user' ∧ command.allowed user'.role = true) ↔
      command.allowed user.role = true)

/-! ## One request -/

theorem handler_calls (command : EquipmentCommand) (p : DashboardPresenter)
    (t : DashboardPresenter.Trace) :
    (p.Passes command.allowed ∧ (command.handler p t).calls = t.calls ++ [command.op]) ∨
      (¬ p.Passes command.allowed ∧ (command.handler p t).calls = t.calls) := by
  cases command with
  | Start => exact p.onClicked_calls canStartStop (ascii "START") .startProduction t
  | Stop => exact p.onClicked_calls canStartStop (ascii "STOP") .stopProduction t
  | ResetRestart => exact p.onClicked_calls canResetSystem (ascii "RESET") .resetSystem t

/-- A command that is named is run, and its result is what is answered. -/
theorem handleToolsCall_of_commandOf {σ : Type} (S : Services σ) {params : Json}
    {writeEnabled : Bool} {command : EquipmentCommand}
    (h : commandOf params writeEnabled = some command) (w : σ) :
    writeEnabled = true ∧
      params.value Json.asText (ascii "name") [] = some kEquipmentCommandTool ∧
        (handleToolsCall S params writeEnabled w).2 = (runEquipmentCommand S command w).2 ∧
          ((∃ result, (handleToolsCall S params writeEnabled w).1 = some (.ok result)) ↔
            ∃ payload, (runEquipmentCommand S command w).1 = .ok payload) := by
  rw [commandOf] at h
  split at h
  next hnamed =>
    rw [Bool.and_eq_true, decide_eq_true_eq] at hnamed
    obtain ⟨rfl, hname⟩ := hnamed
    split at h
    next hparse =>
      cases h
      have halarms : ¬ kEquipmentCommandTool = kAlarmsSnapshotTool := by decide
      have hproduction : ¬ kEquipmentCommandTool = kProductionMetricsTool := by decide
      have hhistorian : ¬ kEquipmentCommandTool = kHistorianQueryTool := by decide
      have hcall : handleToolsCall S params true w =
          callEquipmentCommand S (argumentsOf params) true w := by
        simp only [handleToolsCall, hname, if_neg halarms, if_neg hproduction,
          if_neg hhistorian, if_true]
      rw [hcall]
      simp only [callEquipmentCommand, Bool.not_true, Bool.false_eq_true, if_false, hparse,
        hname, true_and]
      rcases hrun : runEquipmentCommand S command w with ⟨e | payload, w'⟩
      · simp
      · have hpayload := wellEncoded_runEquipmentCommand S (by rw [hrun])
        have hsome := (@answered_spec σ S (payload, w')).1.trans hpayload
        rw [answered, Option.isSome_map] at hsome
        obtain ⟨result, hresult⟩ := Option.isSome_iff_exists.mp hsome
        simp [answered, hresult]
    next => cases h
  next => cases h

/-- A request that names no command leaves the presenter alone, and is not answered with
success if it is for the tool. -/
theorem handleToolsCall_of_no_command (c : Wiring ρ) {params : Json} {writeEnabled : Bool}
    (h : commandOf params writeEnabled = none) (w : ρ × DashboardPresenter.Trace) :
    (handleToolsCall c.services params writeEnabled w).2.2 = w.2 ∧
      (params.value Json.asText (ascii "name") [] = some kEquipmentCommandTool →
        ¬ ∃ result, (handleToolsCall c.services params writeEnabled w).1 =
          some (.ok result)) := by
  rw [handleToolsCall]
  cases hname : params.value Json.asText (ascii "name") [] with
  | none => exact ⟨rfl, fun h => by cases h⟩
  | some name =>
      have hother : ∀ {tool : Text}, name = tool → tool ≠ kEquipmentCommandTool →
          some name = some kEquipmentCommandTool → False :=
        fun htool hne h => hne (htool ▸ Option.some.inj h)
      simp only []
      by_cases halarms : name = kAlarmsSnapshotTool
      · rw [if_pos halarms]
        exact ⟨rfl, fun h => (hother halarms (by decide) h).elim⟩
      rw [if_neg halarms]
      by_cases hproduction : name = kProductionMetricsTool
      · rw [if_pos hproduction]
        exact ⟨rfl, fun h => (hother hproduction (by decide) h).elim⟩
      rw [if_neg hproduction]
      by_cases hhistorian : name = kHistorianQueryTool
      · rw [if_pos hhistorian]
        refine ⟨?_, fun h => (hother hhistorian (by decide) h).elim⟩
        rw [callHistorianQuery]
        split <;> rfl
      rw [if_neg hhistorian]
      by_cases hequipment : name = kEquipmentCommandTool
      · rw [if_pos hequipment, callEquipmentCommand]
        cases writeEnabled with
        | false => exact ⟨rfl, fun _ ⟨_, hresult⟩ => by cases hresult⟩
        | true =>
            simp only [commandOf, hname, hequipment, decide_true, Bool.and_true, if_true] at h
            simp only [Bool.not_true, Bool.false_eq_true, if_false]
            rcases hparse : parseEquipmentCommandArgs (argumentsOf params) with _ | e | command
            · exact ⟨rfl, fun _ ⟨_, hresult⟩ => by cases hresult⟩
            · exact ⟨rfl, fun _ ⟨_, hresult⟩ => by cases hresult⟩
            · rw [hparse] at h
              cases h
      · rw [if_neg hequipment]
        exact ⟨rfl, fun h => absurd (Option.some.inj h) hequipment⟩

/-- A command reaches the model if the presenter lets it pass, and it is answered with
success if the server permits it; without one of the sessions it does neither. -/
theorem runEquipmentCommand_spec (c : Wiring ρ) (command : EquipmentCommand)
    (w : ρ × DashboardPresenter.Trace) :
    ((∀ user session, c.server.current = some user → c.presenter.session = some session → False) ∧
        (runEquipmentCommand c.services command w).2.2.calls = w.2.calls ∧
          ¬ ∃ payload, (runEquipmentCommand c.services command w).1 = .ok payload) ∨
      ∃ user session, c.server.current = some user ∧ c.presenter.session = some session ∧
        (((∃ user', session.current = some user' ∧ command.allowed user'.role = true) ∧
            (runEquipmentCommand c.services command w).2.2.calls = w.2.calls ++ [command.op]) ∨
          (¬ (∃ user', session.current = some user' ∧ command.allowed user'.role = true) ∧
            (runEquipmentCommand c.services command w).2.2.calls = w.2.calls)) ∧
          ((∃ payload, (runEquipmentCommand c.services command w).1 = .ok payload) ↔
            command.allowed user.role = true) := by
  cases huser : c.server.current with
  | none =>
      refine .inl ⟨(fun _ _ h => by cases h), ?_⟩
      simp only [runEquipmentCommand, Wiring.services, huser]
      exact ⟨trivial, by simp⟩
  | some user =>
      cases hsession : c.presenter.session with
      | none =>
          refine .inl ⟨(fun _ _ _ h => by cases h), ?_⟩
          simp [runEquipmentCommand, Wiring.services, huser, DashboardPresenter.hasSession,
            hsession]
      | some session =>
          refine .inr ⟨user, session, rfl, rfl, ?_⟩
          have hpasses : c.presenter.Passes command.allowed ↔
              ∃ user', session.current = some user' ∧ command.allowed user'.role = true := by
            refine ⟨fun h => h session hsession, fun h session' h' => ?_⟩
            rwa [← Option.some.inj (hsession.symm.trans h')]
          have hrun : (runEquipmentCommand c.services command w).2.2 =
                command.handler c.presenter w.2 ∧
              ((∃ payload, (runEquipmentCommand c.services command w).1 = .ok payload) ↔
                command.allowed user.role = true) := by
            simp only [runEquipmentCommand, Wiring.services, huser, DashboardPresenter.hasSession,
              hsession, Option.isSome_some, Bool.not_true, Bool.false_eq_true, if_false]
            cases command.allowed user.role <;> simp
          rw [hrun.1, ← hpasses]
          exact ⟨handler_calls command c.presenter w.2, hrun.2⟩

/-! ## Runs -/

/-- An answer comes from the state before it. -/
theorem answered_of_mem {σ : Type} {S : Services σ} {writeEnabled : Bool}
    {requests : List Json} {w : σ} {e : Exchange σ} (h : e ∈ exchanges S writeEnabled requests w) :
    e.reply = (handleToolsCall S e.params writeEnabled e.before).1 ∧
      e.after = (handleToolsCall S e.params writeEnabled e.before).2 := by
  induction requests generalizing w with
  | nil => cases h
  | cons params requests ih =>
      rw [exchanges, List.mem_cons] at h
      rcases h with rfl | h
      · exact ⟨rfl, rfl⟩
      · split at h
        · exact ih h
        · cases h

/-- A request that does not reach the model keeps to the gate if it is not answered with
success. -/
theorem gates_of_not_reached {c : Wiring ρ} {e : Exchange (ρ × DashboardPresenter.Trace)}
    (hreached : e.reached = [])
    (hfails : e.params.value Json.asText (ascii "name") [] = some kEquipmentCommandTool →
      ¬ ∃ result, e.reply = some (.ok result)) : c.Gates e := by
  refine ⟨fun op hop => ?_, fun hname => ?_⟩
  · rw [hreached] at hop
    exact absurd hop List.not_mem_nil
  · exact iff_of_false (hfails hname) fun h => h hreached

/-- The agreement of two sessions that are there. -/
theorem agree_iff {c : Wiring ρ} {command : EquipmentCommand} {user : User} {session : Session}
    (huser : c.server.current = some user) (hsession : c.presenter.session = some session) :
    c.Agree command ↔
      ((∃ user', session.current = some user' ∧ command.allowed user'.role = true) ↔
        command.allowed user.role = true) := by
  refine ⟨fun h => h user session huser hsession, fun h user' session' h' h'' => ?_⟩
  rwa [← Option.some.inj (huser.symm.trans h'), ← Option.some.inj (hsession.symm.trans h'')]

/-- A request for a command keeps to the gate exactly if the sessions agree on it. -/
theorem gates_iff_agree (c : Wiring ρ) {command : EquipmentCommand}
    {e : Exchange (ρ × DashboardPresenter.Trace)} (henabled : c.writeEnabled = true)
    (hname : e.params.value Json.asText (ascii "name") [] = some kEquipmentCommandTool)
    (hstate : e.after = (runEquipmentCommand c.services command e.before).2)
    (hsuccess : (∃ result, e.reply = some (.ok result)) ↔
      ∃ payload, (runEquipmentCommand c.services command e.before).1 = .ok payload) :
    c.Gates e ↔ c.Agree command := by
  rcases runEquipmentCommand_spec c command e.before with ⟨hmissing, hcalls, hfails⟩ |
    ⟨user, session, huser, hsession, hcalls, hanswer⟩
  · have hreached : e.reached = [] := by
      rw [Exchange.reached, hstate, hcalls, List.drop_length]
    refine iff_of_true (gates_of_not_reached hreached fun _ => mt hsuccess.mp hfails) ?_
    intro user session huser hsession
    exact (hmissing user session huser hsession).elim
  · rw [hanswer] at hsuccess
    rw [agree_iff huser hsession]
    rcases hcalls with ⟨hpasses, hcalls⟩ | ⟨hpasses, hcalls⟩
    · have hreached : e.reached = [command.op] := by
        rw [Exchange.reached, hstate, hcalls, List.drop_left]
      have hcalled : e.reached ≠ [] := by
        rw [hreached]
        exact List.cons_ne_nil _ _
      constructor
      · intro h
        exact iff_of_true hpasses (hsuccess.mp ((h.truthful hname).mpr hcalled))
      · intro h
        refine ⟨fun op hop => ?_, fun _ => iff_of_true (hsuccess.mpr (h.mp hpasses)) hcalled⟩
        rw [hreached] at hop
        exact ⟨henabled, user, huser, command, List.mem_singleton.mp hop, h.mp hpasses⟩
    · have hreached : e.reached = [] := by
        rw [Exchange.reached, hstate, hcalls, List.drop_length]
      constructor
      · intro h
        exact iff_of_false hpasses fun hallowed =>
          (h.truthful hname).mp (hsuccess.mpr hallowed) hreached
      · intro h
        exact gates_of_not_reached hreached fun _ hanswered =>
          hpasses (h.mpr (hsuccess.mp hanswered))

/-- A request keeps to the gate exactly if the sessions agree on the command it names. -/
theorem gates_iff (c : Wiring ρ) {e : Exchange (ρ × DashboardPresenter.Trace)}
    (hreply : e.reply = (handleToolsCall c.services e.params c.writeEnabled e.before).1)
    (hafter : e.after = (handleToolsCall c.services e.params c.writeEnabled e.before).2) :
    c.Gates e ↔ ∀ command, commandOf e.params c.writeEnabled = some command →
      c.Agree command := by
  cases hcommand : commandOf e.params c.writeEnabled with
  | none =>
      obtain ⟨htrace, hrefused⟩ := handleToolsCall_of_no_command c hcommand e.before
      have hreached : e.reached = [] := by
        rw [Exchange.reached, hafter, htrace, List.drop_length]
      rw [← hreply] at hrefused
      refine iff_of_true (gates_of_not_reached hreached hrefused) ?_
      intro command h
      cases h
  | some command =>
      obtain ⟨henabled, hname, hstate, hsuccess⟩ :=
        handleToolsCall_of_commandOf c.services hcommand e.before
      rw [← hafter] at hstate
      rw [← hreply] at hsuccess
      rw [gates_iff_agree c henabled hname hstate hsuccess]
      constructor
      · intro h command' heq
        exact Option.some.inj heq ▸ h
      · intro h
        exact h command rfl

/-- Over a run of requests the gate is kept exactly if the sessions agree on every command
that comes up. -/
theorem gate_iff (c : Wiring ρ) (requests : List Json) (w : ρ × DashboardPresenter.Trace) :
    (∀ e ∈ exchanges c.services c.writeEnabled requests w, c.Gates e) ↔
      ∀ e ∈ exchanges c.services c.writeEnabled requests w, ∀ command,
        commandOf e.params c.writeEnabled = some command → c.Agree command :=
  forall₂_congr fun _ h => gates_iff c (answered_of_mem h).1 (answered_of_mem h).2

/-- An operator for an agent, and a maintenance user at the dashboard. -/
def crossed : Wiring Unit where
  base := quiet
  server := ⟨some { role := .Operator }⟩
  presenter := ⟨true, some ⟨some { role := .Maintenance }⟩⟩
  writeEnabled := true

/-- The reset is carried out, and refused. -/
theorem crossed_reset_not_gated :
    ¬ ∀ requests w, ∀ e ∈ exchanges crossed.services crossed.writeEnabled requests w,
      crossed.Gates e := by
  intro h
  have hgates := h [.object [(ascii "name", .string kEquipmentCommandTool),
    (ascii "arguments", .object [(kArgCommand, .string (ascii "reset"))])]] ((), {}) _
      List.mem_cons_self
  obtain ⟨result, hresult⟩ := (hgates.truthful rfl).mpr fun hreached =>
    absurd (congrArg List.length hreached) (by decide)
  cases hresult

end Mcp
