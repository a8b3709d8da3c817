import IndustrialHmi.Model.ProductionTypes
import IndustrialHmi.Model.SystemStateMachine
import IndustrialHmi.Presenter.AlertRuns
import IndustrialHmi.Theory.Numerals

/-!
# Alarms of the dashboard

The dashboard turns what the model reports into calls of the alarm store: a report of a line or
of a checkpoint raises or clears its alarm each time, a report of the system state only when
`ERROR` is entered or left.  Each report makes at most one call, and the operator's calls may
come anywhere between them.

Whether the condition of an alarm is active is then what was reported last
(`mirrors_process`).  `_` is the catalogue of texts in the operator's language.
-/

open Production AlertCenter

def kAlarmPriorityEmergency : Int := 1
def kAlarmPriorityHigh : Int := 2
def kAlarmPriorityMedium : Int := 3

inductive QualityCheckpointStatus where
  | Passing
  | Warning
  | Critical
  deriving DecidableEq

def kQualityPassThreshold : Binary32 := .fin 95
def kQualityWarningThreshold : Binary32 := .fin 90

/-- The status that the card of a checkpoint shows. -/
def checkpointStatus (cp : QualityCheckpoint) : QualityCheckpointStatus :=
  if kQualityPassThreshold.le cp.passRate then .Passing
  else if kQualityWarningThreshold.le cp.passRate then .Warning
  else .Critical

/-! ## Texts -/

inductive FormatArg where
  | uint (n : Nat)
  | string (s : String)
  | float (x : Binary32)

/-- The catalogue of the active language and `std::vformat`. -/
structure TextCatalog where
  gettext : String → String
  vformat : String → List FormatArg → String

/-- What a callback captures to write the texts of its alert again. -/
inductive Retranslate where
  | equipment (equipmentId : Nat) (isError : Bool)
  | quality (isCritical : Bool) (cpName : String) (passRate targetPassRate : Binary32)
  | system (reason : String)

def Retranslate.title (catalog : TextCatalog) : Retranslate → String
  | equipment equipmentId isError =>
      let titleFmt :=
        catalog.gettext (if isError then "Equipment {} error" else "Equipment {} offline")
      catalog.vformat titleFmt [.uint equipmentId]
  | quality isCritical cpName _ _ =>
      let titleFmt := catalog.gettext (if isCritical then "{} critical" else "{} below target")
      catalog.vformat titleFmt [.string cpName]
  | system _ => catalog.gettext "System fault"

def Retranslate.message (catalog : TextCatalog) : Retranslate → String
  | equipment _ _ => catalog.gettext "Line unavailable for production."
  | quality _ _ passRate targetPassRate =>
      catalog.vformat (catalog.gettext "Pass rate {:.1f}% (target {:.0f}%)")
        [.float passRate, .float targetPassRate]
  | system reason =>
      if reason.isEmpty then catalog.gettext "Production locked out." else reason

/-- The callbacks write the title and the message only. -/
def TextCatalog.translators (catalog : TextCatalog) : Translators Retranslate where
  run t a := { a with title := t.title catalog, message := t.message catalog }
  run_key _ _ := rfl
  run_state _ _ := rfl
  run_priority _ _ := rfl

/-! ## The handlers -/

/-- What the handlers keep and what they have called the alarm store for. -/
structure DashboardAlarms where
  prevSystemState : SystemState := .IDLE
  /-- Oldest first. -/
  calls : List (Call Retranslate) := []

namespace DashboardAlarms

def call (op : Op Retranslate) (r : Reading) (p : DashboardAlarms) : DashboardAlarms :=
  { p with calls := p.calls ++ [⟨op, r⟩] }

/-- The texts are first written in the language that is active. -/
def raise (catalog : TextCatalog) (a : AlertViewModel Retranslate) (r : Reading) :
    DashboardAlarms → DashboardAlarms :=
  call (.raise (translated catalog.translators a)) r

def equipmentKey (equipmentId : Nat) : String := "equipment-" ++ toString equipmentId
def qualityKey (checkpointId : Nat) : String := "quality-" ++ toString checkpointId
def kSystemErrorKey : String := "system-error"

def handleEquipmentStatusUpdate (catalog : TextCatalog) (equipmentId : Nat) (status : ℤ)
    (r : Reading) (p : DashboardAlarms) : DashboardAlarms :=
  let key := equipmentKey equipmentId
  if status = 0 ∨ status = 3 then
    p.raise catalog
      { key
        severity := if status = 3 then .Critical else .Warning
        priority := if status = 3 then kAlarmPriorityHigh else kAlarmPriorityMedium
        retranslate := some (.equipment equipmentId (status = 3)) } r
  else p.call (.clear key) r

/-- `cp` is the record that the model answers for the id. -/
def handleQualityCheckpointUpdate (catalog : TextCatalog) (checkpointId : Nat)
    (cp : QualityCheckpoint) (r : Reading) (p : DashboardAlarms) : DashboardAlarms :=
  let key := qualityKey checkpointId
  let status := checkpointStatus cp
  if status = .Passing then p.call (.clear key) r
  else
    p.raise catalog
      { key
        severity := if status = .Critical then .Critical else .Warning
        priority := if status = .Critical then kAlarmPriorityHigh else kAlarmPriorityMedium
        retranslate := some
          (.quality (status = .Critical) cp.name cp.passRate cp.passRateTarget) } r

/-- `reason` is the model's last fault reason. -/
def handleSystemStateChanged (catalog : TextCatalog) (newState : SystemState) (reason : String)
    (r : Reading) (p : DashboardAlarms) : DashboardAlarms :=
  let nowError := newState = .ERROR
  let wasError := p.prevSystemState = .ERROR
  let p :=
    if nowError ∧ ¬ wasError then
      p.raise catalog
        { key := kSystemErrorKey
          severity := .Critical
          priority := kAlarmPriorityEmergency
          retranslate := some (.system reason) } r
    else if ¬ nowError ∧ wasError then p.call (.clear kSystemErrorKey) r
    else p
  { p with prevSystemState := newState }

def handleNewWorkUnit (r : Reading) (p : DashboardAlarms) : DashboardAlarms := p.call .tick r

/-! ## Runs -/

inductive Event where
  | equipmentStatus (equipmentId : Nat) (status : ℤ)
  | qualityCheckpoint (checkpointId : Nat) (cp : QualityCheckpoint)
  | systemState (newState : SystemState) (reason : String)
  | newWorkUnit
  | acknowledge (key : String)
  | shelve (key : String) (duration : Int)
  | unshelve (key : String)

/-- What happens, and what the clocks read then. -/
structure Happening where
  event : Event
  reading : Reading

def handle (catalog : TextCatalog) (p : DashboardAlarms) (e : Happening) : DashboardAlarms :=
  match e.event with
  | .equipmentStatus id status => p.handleEquipmentStatusUpdate catalog id status e.reading
  | .qualityCheckpoint id cp => p.handleQualityCheckpointUpdate catalog id cp e.reading
  | .systemState newState reason => p.handleSystemStateChanged catalog newState reason e.reading
  | .newWorkUnit => p.handleNewWorkUnit e.reading
  | .acknowledge key => p.call (.acknowledge key) e.reading
  | .shelve key duration => p.call (.shelve key duration) e.reading
  | .unshelve key => p.call (.unshelve key) e.reading

def after (catalog : TextCatalog) (run : List Happening) : DashboardAlarms :=
  run.foldl (handle catalog) {}

/-- The alarm store after a run. -/
def alertCenter (catalog : TextCatalog) (run : List Happening) : Store Retranslate :=
  AlertCenter.after catalog.translators (after catalog run).calls

/-! ## What was reported last -/

def lastEquipmentStatus (equipmentId : Nat) : List Happening → Option ℤ :=
  lastSaid fun e =>
    match e.event with
    | .equipmentStatus id status => if id = equipmentId then some status else none
    | _ => none

def lastCheckpointStatus (checkpointId : Nat) : List Happening → Option QualityCheckpointStatus :=
  lastSaid fun e =>
    match e.event with
    | .qualityCheckpoint id cp => if id = checkpointId then some (checkpointStatus cp) else none
    | _ => none

def lastSystemState : List Happening → Option SystemState :=
  lastSaid fun e =>
    match e.event with
    | .systemState newState _ => some newState
    | _ => none

/-- The condition of a live alarm is active. -/
def Active (c : Store Retranslate) (key : String) : Prop :=
  ∃ state, status c key = some (state, true)

/-- A key of one of the three kinds of alarm. -/
def Known (key : String) : Prop :=
  (∃ id, key = equipmentKey id) ∨ (∃ id, key = qualityKey id) ∨ key = kSystemErrorKey

/-- The alarms after a run say what was reported last. -/
structure Mirrors (catalog : TextCatalog) (run : List Happening) : Prop where
  equipment (id : Nat) : Active (alertCenter catalog run) (equipmentKey id) ↔
    ∃ status, lastEquipmentStatus id run = some status ∧ (status = 0 ∨ status = 3)
  checkpoint (id : Nat) : Active (alertCenter catalog run) (qualityKey id) ↔
    ∃ status, lastCheckpointStatus id run = some status ∧ status ≠ .Passing
  system : Active (alertCenter catalog run) kSystemErrorKey ↔ lastSystemState run = some .ERROR
  /-- An active alarm is among the live ones, as urgent as it was raised last. -/
  urgent (key : String) : Active (alertCenter catalog run) key →
    ∃ alarm alert, findByKey (alertCenter catalog run) key = some alarm ∧
      lastRaise key (after catalog run).calls = some alert ∧
      alarm.vm.severity = alert.severity ∧ alarm.vm.priority = alert.priority
  known : ∀ made ∈ (after catalog run).calls, ∀ alert, made.op = .raise alert → Known alert.key

/-! ## Keys -/

theorem equipmentKey_inj {id id' : Nat} : equipmentKey id = equipmentKey id' ↔ id = id' := by
  rw [equipmentKey, equipmentKey, String.append_right_inj]
  exact ⟨Numeral.toString_injective, congrArg toString⟩

theorem qualityKey_inj {id id' : Nat} : qualityKey id = qualityKey id' ↔ id = id' := by
  rw [qualityKey, qualityKey, String.append_right_inj]
  exact ⟨Numeral.toString_injective, congrArg toString⟩

/-- The kinds of keys differ in their first letter. -/
theorem head_equipmentKey (id : Nat) : (equipmentKey id).toList.head? = some 'e' := by
  simp [equipmentKey]

theorem head_qualityKey (id : Nat) : (qualityKey id).toList.head? = some 'q' := by
  simp [qualityKey]

theorem head_systemErrorKey : kSystemErrorKey.toList.head? = some 's' := by simp [kSystemErrorKey]

theorem equipmentKey_ne_qualityKey (id id' : Nat) : equipmentKey id ≠ qualityKey id' := by
  intro h
  have hhead := head_equipmentKey id
  rw [h, head_qualityKey] at hhead
  exact absurd hhead (by decide)

theorem equipmentKey_ne_system (id : Nat) : equipmentKey id ≠ kSystemErrorKey := by
  intro h
  have hhead := head_equipmentKey id
  rw [h, head_systemErrorKey] at hhead
  exact absurd hhead (by decide)

theorem qualityKey_ne_system (id : Nat) : qualityKey id ≠ kSystemErrorKey := by
  intro h
  have hhead := head_qualityKey id
  rw [h, head_systemErrorKey] at hhead
  exact absurd hhead (by decide)

/-! ## What a handler says to the alarm store -/

theorem after_concat (catalog : TextCatalog) (run : List Happening) (e : Happening) :
    after catalog (run ++ [e]) = (after catalog run).handle catalog e :=
  List.foldl_concat (handle catalog) {} e run

section Handlers

variable (catalog : TextCatalog) (key : String) (r : Reading) (p : DashboardAlarms)

theorem lastInput_call (op : Op Retranslate) :
    lastInput key (p.call op r).calls = (processInput key op).or (lastInput key p.calls) :=
  lastInput_concat key p.calls ⟨op, r⟩

theorem lastInput_raise (a : AlertViewModel Retranslate) :
    lastInput key (p.raise catalog a r).calls =
      if a.key = key then some .raise else lastInput key p.calls := by
  rw [raise, lastInput_call, processInput, (translated_kept catalog.translators a).1]
  split <;> rfl

theorem lastInput_clear (k : String) :
    lastInput key (p.call (.clear k) r).calls =
      if k = key then some .clear else lastInput key p.calls := by
  rw [lastInput_call, processInput]
  split <;> rfl

/-- What a report of a line says about its condition. -/
def equipmentInput (status : ℤ) : ProcessInput :=
  if status = 0 ∨ status = 3 then .raise else .clear

def checkpointInput (status : QualityCheckpointStatus) : ProcessInput :=
  if status = .Passing then .clear else .raise

theorem lastInput_equipmentStatus (id : Nat) (status : ℤ) :
    lastInput key (p.handleEquipmentStatusUpdate catalog id status r).calls =
      if equipmentKey id = key then some (equipmentInput status) else lastInput key p.calls := by
  rw [handleEquipmentStatusUpdate, equipmentInput]
  split
  next => rw [lastInput_raise]
  next => rw [lastInput_clear]

theorem lastInput_qualityCheckpoint (id : Nat) (cp : QualityCheckpoint) :
    lastInput key (p.handleQualityCheckpointUpdate catalog id cp r).calls =
      if qualityKey id = key then some (checkpointInput (checkpointStatus cp))
      else lastInput key p.calls := by
  rw [handleQualityCheckpointUpdate, checkpointInput]
  split
  next => rw [lastInput_clear]
  next => rw [lastInput_raise]

theorem prevSystemState_equipmentStatus (id : Nat) (status : ℤ) :
    (p.handleEquipmentStatusUpdate catalog id status r).prevSystemState = p.prevSystemState := by
  rw [handleEquipmentStatusUpdate]
  split <;> rfl

theorem prevSystemState_qualityCheckpoint (id : Nat) (cp : QualityCheckpoint) :
    (p.handleQualityCheckpointUpdate catalog id cp r).prevSystemState = p.prevSystemState := by
  rw [handleQualityCheckpointUpdate]
  split <;> rfl

theorem lastInput_systemState_of_ne (hkey : key ≠ kSystemErrorKey) (newState : SystemState)
    (reason : String) :
    lastInput key (p.handleSystemStateChanged catalog newState reason r).calls =
      lastInput key p.calls := by
  simp only [handleSystemStateChanged]
  split
  next => rw [lastInput_raise, if_neg hkey.symm]
  next =>
    split
    next => rw [lastInput_clear, if_neg hkey.symm]
    next => rfl

/-- The condition of the system alarm stays true to the state that was reported last. -/
theorem lastInput_systemState (newState : SystemState) (reason : String)
    (h : lastInput kSystemErrorKey p.calls = some .raise ↔ p.prevSystemState = .ERROR) :
    lastInput kSystemErrorKey (p.handleSystemStateChanged catalog newState reason r).calls =
      some .raise ↔ newState = .ERROR := by
  simp only [handleSystemStateChanged]
  split
  next hentered => rw [lastInput_raise, if_pos rfl, iff_true_right hentered.1]
  next hnot =>
    split
    next hleft => rw [lastInput_clear, if_pos rfl, iff_false_right hleft.1]; exact nofun
    next hnot' =>
      rw [h]
      exact ⟨fun hwas => by_contra fun hnow => hnot' ⟨hnow, hwas⟩,
        fun hnow => by_contra fun hwas => hnot ⟨hnow, hwas⟩⟩

end Handlers

/-! ## Along a run -/

variable (catalog : TextCatalog)

/-- What an event says to the alarm store under a key of a line or of a checkpoint. -/
def Happening.input (key : String) (e : Happening) : Option ProcessInput :=
  match e.event with
  | .equipmentStatus id status =>
      if equipmentKey id = key then some (equipmentInput status) else none
  | .qualityCheckpoint id cp =>
      if qualityKey id = key then some (checkpointInput (checkpointStatus cp)) else none
  | _ => none

theorem lastInput_handle {key : String} (hkey : key ≠ kSystemErrorKey) (p : DashboardAlarms)
    (e : Happening) :
    lastInput key (p.handle catalog e).calls = (e.input key).or (lastInput key p.calls) := by
  obtain ⟨event, r⟩ := e
  cases event with
  | equipmentStatus id status =>
      refine (lastInput_equipmentStatus catalog key r p id status).trans ?_
      simp only [Happening.input]
      split <;> rfl
  | qualityCheckpoint id cp =>
      refine (lastInput_qualityCheckpoint catalog key r p id cp).trans ?_
      simp only [Happening.input]
      split <;> rfl
  | systemState newState reason =>
      exact lastInput_systemState_of_ne catalog key r p hkey newState reason
  | newWorkUnit => exact lastInput_call key r p _
  | acknowledge k => exact lastInput_call key r p _
  | shelve k duration => exact lastInput_call key r p _
  | unshelve k => exact lastInput_call key r p _

theorem lastInput_after {key : String} (hkey : key ≠ kSystemErrorKey) (run : List Happening) :
    lastInput key (after catalog run).calls = lastSaid (Happening.input key) run := by
  induction run using List.reverseRecOn with
  | nil => rfl
  | append_singleton run e ih =>
      rw [after_concat, lastInput_handle catalog hkey, ih, lastSaid_concat]

theorem lastInput_equipment (id : Nat) (run : List Happening) :
    lastInput (equipmentKey id) (after catalog run).calls =
      (lastEquipmentStatus id run).map equipmentInput := by
  rw [lastInput_after catalog (equipmentKey_ne_system id), lastEquipmentStatus, ← lastSaid_map]
  refine congrArg (lastSaid · run) (funext fun e => ?_)
  obtain ⟨event, r⟩ := e
  cases event with
  | equipmentStatus id' status =>
      simp only [Happening.input, equipmentKey_inj]
      split <;> rfl
  | qualityCheckpoint id' cp =>
      simp only [Happening.input, if_neg (equipmentKey_ne_qualityKey id id').symm]
      rfl
  | _ => rfl

theorem lastInput_quality (id : Nat) (run : List Happening) :
    lastInput (qualityKey id) (after catalog run).calls =
      (lastCheckpointStatus id run).map checkpointInput := by
  rw [lastInput_after catalog (qualityKey_ne_system id), lastCheckpointStatus, ← lastSaid_map]
  refine congrArg (lastSaid · run) (funext fun e => ?_)
  obtain ⟨event, r⟩ := e
  cases event with
  | equipmentStatus id' status =>
      simp only [Happening.input, if_neg (equipmentKey_ne_qualityKey id' id)]
      rfl
  | qualityCheckpoint id' cp =>
      simp only [Happening.input, qualityKey_inj]
      split <;> rfl
  | _ => rfl

theorem prevSystemState_after (run : List Happening) :
    (after catalog run).prevSystemState = (lastSystemState run).getD .IDLE := by
  induction run using List.reverseRecOn with
  | nil => rfl
  | append_singleton run e ih =>
      rw [after_concat, lastSystemState, lastSaid_concat, ← lastSystemState]
      obtain ⟨event, r⟩ := e
      cases event with
      | equipmentStatus id status =>
          exact (prevSystemState_equipmentStatus catalog r _ id status).trans ih
      | qualityCheckpoint id cp =>
          exact (prevSystemState_qualityCheckpoint catalog r _ id cp).trans ih
      | systemState newState reason => rfl
      | _ => exact ih

theorem lastInput_system (run : List Happening) :
    lastInput kSystemErrorKey (after catalog run).calls = some .raise ↔
      (after catalog run).prevSystemState = .ERROR := by
  induction run using List.reverseRecOn with
  | nil => exact iff_of_false nofun nofun
  | append_singleton run e ih =>
      rw [after_concat]
      obtain ⟨event, r⟩ := e
      cases event with
      | equipmentStatus id status =>
          simp only [handle]
          rw [lastInput_equipmentStatus, if_neg (equipmentKey_ne_system id), ih,
            prevSystemState_equipmentStatus]
      | qualityCheckpoint id cp =>
          simp only [handle]
          rw [lastInput_qualityCheckpoint, if_neg (qualityKey_ne_system id), ih,
            prevSystemState_qualityCheckpoint]
      | systemState newState reason =>
          exact lastInput_systemState catalog r _ newState reason ih
      | newWorkUnit =>
          simp only [handle, handleNewWorkUnit]
          rw [lastInput_call]
          exact ih
      | acknowledge k =>
          simp only [handle]
          rw [lastInput_call]
          exact ih
      | shelve k duration =>
          simp only [handle]
          rw [lastInput_call]
          exact ih
      | unshelve k =>
          simp only [handle]
          rw [lastInput_call]
          exact ih

/-! ## Which calls are made -/

/-- What the alarm store may be called for. -/
def Allowed (op : Op Retranslate) : Prop :=
  op ≠ .clearAll ∧ ∀ alert, op = .raise alert → Known alert.key

def AllAllowed (calls : List (Call Retranslate)) : Prop := ∀ made ∈ calls, Allowed made.op

theorem AllAllowed.call {p : DashboardAlarms} (h : AllAllowed p.calls) (op : Op Retranslate)
    (r : Reading) (hop : Allowed op) : AllAllowed (p.call op r).calls :=
  List.forall_mem_append.mpr ⟨h, List.forall_mem_singleton.mpr hop⟩

theorem AllAllowed.raise {p : DashboardAlarms} (h : AllAllowed p.calls)
    {a : AlertViewModel Retranslate} (ha : Known a.key) (r : Reading) :
    AllAllowed (p.raise catalog a r).calls := by
  refine h.call (.raise (translated catalog.translators a)) r ⟨by simp, fun alert halert => ?_⟩
  rw [← Op.raise.inj halert, (translated_kept catalog.translators a).1]
  exact ha

theorem AllAllowed.handle {p : DashboardAlarms} (h : AllAllowed p.calls) (e : Happening) :
    AllAllowed (p.handle catalog e).calls := by
  obtain ⟨event, r⟩ := e
  cases event with
  | equipmentStatus id status =>
      simp only [DashboardAlarms.handle, handleEquipmentStatusUpdate]
      split
      · exact h.raise catalog (.inl ⟨id, rfl⟩) r
      · exact h.call (.clear (equipmentKey id)) r ⟨by simp, by simp⟩
  | qualityCheckpoint id cp =>
      simp only [DashboardAlarms.handle, handleQualityCheckpointUpdate]
      split
      · exact h.call (.clear (qualityKey id)) r ⟨by simp, by simp⟩
      · exact h.raise catalog (.inr (.inl ⟨id, rfl⟩)) r
  | systemState newState reason =>
      simp only [DashboardAlarms.handle, handleSystemStateChanged]
      split
      · exact h.raise catalog (.inr (.inr rfl)) r
      · split
        · exact h.call (.clear kSystemErrorKey) r ⟨by simp, by simp⟩
        · exact h
  | newWorkUnit => exact h.call .tick r ⟨by simp, by simp⟩
  | acknowledge k => exact h.call (.acknowledge k) r ⟨by simp, by simp⟩
  | shelve k duration => exact h.call (.shelve k duration) r ⟨by simp, by simp⟩
  | unshelve k => exact h.call (.unshelve k) r ⟨by simp, by simp⟩

theorem allAllowed_after (run : List Happening) : AllAllowed (after catalog run).calls := by
  induction run using List.reverseRecOn with
  | nil => exact List.forall_mem_nil _
  | append_singleton run e ih =>
      rw [after_concat]
      exact ih.handle catalog e

/-! ## The alarms and the process -/

/-- Active is what was raised last. -/
theorem active_iff (run : List Happening) (key : String) :
    Active (alertCenter catalog run) key ↔
      lastInput key (after catalog run).calls = some .raise := by
  have hheeds := after_heeds catalog.translators (after catalog run).calls key
  constructor
  · rintro ⟨state, hstatus⟩
    obtain ⟨input, hlast, hactive⟩ := hheeds state true hstatus
    cases input with
    | raise => exact hlast
    | clear => cases hactive
  · intro hlast
    have hlive := raised_live catalog.translators key (after catalog run).calls
      (fun made hmade => (allAllowed_after catalog run made hmade).1) hlast
    obtain ⟨⟨state, active⟩, hstatus⟩ := Option.isSome_iff_exists.mp (mem_keys.mp hlive)
    obtain ⟨input, hlast', rfl⟩ := hheeds state active hstatus
    obtain rfl : input = .raise := Option.some.inj (hlast'.symm.trans hlast)
    exact ⟨state, hstatus⟩

theorem urgent_of_active (run : List Happening) (key : String)
    (h : Active (alertCenter catalog run) key) :
    ∃ alarm alert, findByKey (alertCenter catalog run) key = some alarm ∧
      lastRaise key (after catalog run).calls = some alert ∧
      alarm.vm.severity = alert.severity ∧ alarm.vm.priority = alert.priority := by
  obtain ⟨state, hstatus⟩ := h
  obtain ⟨alarm, hfind, -⟩ := Option.map_eq_some_iff.mp hstatus
  have hurgency : urgencyOf (alertCenter catalog run) key = some (urgency alarm.vm) := by
    rw [urgencyOf, hfind, Option.map_some]
  obtain ⟨alert, hraise, hsame⟩ := Option.map_eq_some_iff.mp
    (urgencyOf_after catalog.translators (fun _ _ => rfl) key _ hurgency)
  exact ⟨alarm, alert, hfind, hraise, congrArg Prod.fst hsame.symm, congrArg Prod.snd hsame.symm⟩

/-- **The alarms mirror the process**, after any reports, calls of the operator and ticks. -/
theorem mirrors_process (run : List Happening) : Mirrors catalog run where
  equipment id := by
    rw [active_iff, lastInput_equipment, Option.map_eq_some_iff]
    refine exists_congr fun status => and_congr_right fun _ => ?_
    rw [equipmentInput]
    split
    next h => exact iff_of_true rfl h
    next h => exact iff_of_false nofun h
  checkpoint id := by
    rw [active_iff, lastInput_quality, Option.map_eq_some_iff]
    refine exists_congr fun status => and_congr_right fun _ => ?_
    rw [checkpointInput]
    split
    next h => exact iff_of_false nofun (not_not_intro h)
    next h => exact iff_of_true rfl h
  system := by
    rw [active_iff, lastInput_system, prevSystemState_after]
    cases lastSystemState run with
    | none => exact iff_of_false nofun nofun
    | some state => rw [Option.getD_some, Option.some.injEq]
  urgent := urgent_of_active catalog run
  known made hmade := (allAllowed_after catalog run made hmade).2

end DashboardAlarms
