import IndustrialHmi.Console.ConsoleView
import IndustrialHmi.Presenter.Accountability
import IndustrialHmi.Presenter.RecipeWorkflow

/-!
# A session at the console

The reader thread carries out the lines that are typed, the other thread ticks the simulation; they
take turns.  What `status` prints is what the model stores, and `alerts` lists as active what is in
trouble there, throughout a session, exactly if nobody switches the line 3, which is in the range of
the model but not there (`session_law`).
-/

namespace Console

open Production AlertCenter DashboardAlarms DashboardCards Reporting SystemStateMachine

/-! ## The rows of the alarms -/

section Rows

variable {τ : Type} {translate : Translators τ}

/-- `alerts` lists an alarm under the key as active. -/
def Listed (c : Store τ) (key : String) : Prop :=
  ∃ row ∈ snapshot c, row.key = key ∧ (row.state = .UnackActive ∨ row.state = .AckActive)

theorem key_of_findByKey {c : Store τ} {key : String} {alarm : Alarm τ}
    (h : findByKey c key = some alarm) : alarm.vm.key = key := by
  have hkey : alarm.key = key := FirstMatch.key_of_find h
  exact hkey

/-- With nothing on the shelf, the alarms of an active condition are listed as active. -/
theorem listed_iff {c : Store τ} (hc : Unique c) {key : String}
    (hstatus : Consistent (status c key)) (hshelf : ∀ b, status c key ≠ some (.Shelved, b)) :
    Listed c key ↔ ∃ state, status c key = some (state, true) := by
  constructor
  · rintro ⟨row, hrow, rfl, hactive⟩
    rw [snapshot, List.mem_mergeSort] at hrow
    obtain ⟨alarm, hmem, rfl⟩ := List.mem_map.mp hrow
    have hfind : status c alarm.vm.key = some alarm.status := by
      rw [status, findByKey]
      exact congrArg (Option.map Alarm.status)
        (FirstMatch.find_of_mem hc (List.mem_filter.mp hmem).1)
    rw [hfind] at hstatus ⊢
    refine ⟨alarm.vm.state, ?_⟩
    rcases hactive with h | h <;> simp_all [Alarm.status, Consistent]
  · rintro ⟨state, hstate⟩
    obtain ⟨alarm, hfind, hself⟩ := Option.map_eq_some_iff.mp hstate
    have hvm : alarm.vm.state = state := congrArg Prod.fst hself
    rw [hstate] at hstatus
    have hne : state ≠ .Shelved := fun h => hshelf true (h ▸ hstate)
    refine ⟨alarm.vm, ?_, key_of_findByKey hfind, ?_⟩
    · rw [snapshot, List.mem_mergeSort]
      refine List.mem_map_of_mem (List.mem_filter.mpr ⟨FirstMatch.mem_of_find hfind, ?_⟩)
      simpa [hvm] using hne
    · rw [hvm]
      cases state with
      | UnackActive => exact .inl rfl
      | AckActive => exact .inr rfl
      | RtnUnack => cases hstatus
      | Shelved => exact absurd rfl hne

/-- Nothing gets on the shelf unless it is put there. -/
theorem lifecycle_shelved {m : Status} {e : KeyEvent} {b : Bool} (he : e ≠ .shelve)
    (h : (lifecycle m e).2 = some (.Shelved, b)) : ∃ b', m = some (.Shelved, b') := by
  rcases m with _ | ⟨s, b'⟩
  · cases e <;> simp [lifecycle] at h
  · cases e <;> cases s <;> cases b' <;> simp_all [lifecycle, unshelved]

theorem event_shelve {c : Store τ} {key : String} {call : AlertCenter.Call τ}
    (h : event c key call = .shelve) : ∃ k duration, call.op = .shelve k duration := by
  rw [event] at h
  cases hop : call.op with
  | shelve k duration => exact ⟨k, duration, rfl⟩
  | clearAll => simp [hop] at h
  | clearHistory => simp [hop] at h
  | retranslate => simp [hop] at h
  | _ =>
      simp only [hop] at h
      split at h <;> cases h

/-- No alarm is ever put on the shelf. -/
def OffShelf (calls : List (Call τ)) : Prop :=
  ∀ made ∈ calls, ∀ key duration, made.op ≠ .shelve key duration

theorem OffShelf.status {calls : List (Call τ)} (h : OffShelf calls) (key : String) (b : Bool) :
    AlertCenter.status (AlertCenter.after translate calls) key ≠ some (.Shelved, b) := by
  induction calls using List.reverseRecOn generalizing b with
  | nil => exact nofun
  | append_singleton calls call ih =>
      obtain ⟨hcalls, hcall⟩ := List.forall_mem_append.mp h
      intro hshelved
      rw [status_concat] at hshelved
      have hevent : event (AlertCenter.after translate calls) key call ≠ .shelve := by
        intro hevent
        obtain ⟨k, duration, hop⟩ := event_shelve hevent
        exact hcall call List.mem_cons_self k duration hop
      obtain ⟨b', hbefore⟩ := lifecycle_shelved hevent hshelved
      exact ih hcalls b' hbefore

end Rows

/-! ## The session -/

structure InitConsole where
  model : SimulatedModel := {}
  /-- What the presenter and the operator tell the alarm store, oldest first. -/
  happenings : List Happening := []
  view : ConsoleView := {}

/-- What the presenter tells the alarm store for a report of the model. -/
def reported (c : SimulatedModel) : Notification → Option DashboardAlarms.Event
  | .equipment status => some (.equipmentStatus status.equipmentId status.status)
  | .actuator _ => none
  | .quality checkpoint =>
      c.qualityCheckpoints[checkpoint.checkpointId]?.map
        (.qualityCheckpoint checkpoint.checkpointId ·)
  | .workUnit _ => some .newWorkUnit
  | .systemState state => some (.systemState state c.stateMachine.lastFaultReason)

/-- The reports of one operation, each with what the clocks read then. -/
def happen (c : SimulatedModel) (sent : List Notification) (clocks : Nat → Reading) :
    List Happening :=
  sent.zipIdx.filterMap fun (report, i) => (reported c report).map (⟨·, clocks i⟩)

/-- Nobody signs in at the console, and there is no audit logger. -/
def presenter : DashboardPresenter := { audit := false, session := none }

/-- What the presenter calls the model for. -/
def operations : Action → List SimulatedModel.Op
  | .start => (presenter.onStartClicked {}).calls
  | .stop => (presenter.onStopClicked {}).calls
  | .reset => (presenter.onResetRestartClicked {}).calls
  | .calibrate => (presenter.onCalibrationClicked {}).calls
  | .toggleEquipment id enabled => (presenter.onEquipmentToggled id enabled {}).calls
  | _ => []

inductive Event where
  | line (raw : Text) (clocks : Nat → Reading)
  | tick (draws : SimulatedModel.Draws) (now : ℤ) (clocks : Nat → Reading)

namespace InitConsole

variable (catalog : TextCatalog) (products : Products.ProductTable)

def write (lines : List Text) (s : InitConsole) : InitConsole :=
  { s with view := s.view.write lines }

/-- An operation of the model, with all that the observers do. -/
def operate (clocks : Nat → Reading) (s : InitConsole) (op : SimulatedModel.Op) : InitConsole :=
  let e := s.model.step op
  { model := e.1
    happenings := s.happenings ++ happen e.1 e.2 clocks
    view := (e.2.filterMap (DashboardCards.handle catalog e.1)).foldl ConsoleView.observe s.view }

def alertCenter (s : InitConsole) : Store Retranslate :=
  DashboardAlarms.alertCenter catalog s.happenings

/-- An alert is acknowledged by its key; a text that encodes no string is the key of none. -/
def acknowledge (key : Text) (clocks : Nat → Reading) (s : InitConsole) : InitConsole :=
  match Products.asString? key with
  | none => s
  | some key => { s with happenings := s.happenings ++ [⟨.acknowledge key, clocks 0⟩] }

def perform (clocks : Nat → Reading) (s : InitConsole) : Action → InitConsole
  | .nothing => s
  | .help => s.write helpLines
  | .status => s.write s.view.statusLines
  | .alerts => s.write (alertsLines (snapshot (s.alertCenter catalog)))
  | .dismiss key => s.acknowledge key clocks
  | .products =>
      let view := s.view.onProductsLoaded products.getAllProducts
      { s with view := view.write view.productsLines }
  | .view id => s.write (productDetailLines (buildProductDetailViewModel (products.getProduct id)))
  | .quit =>
      { s with view := { s.view.write [ascii "[BYE      ] Shutting down."] with exit := true } }
  | .refuse message => s.write [message]
  | a => (operations a).foldl (operate catalog clocks) s

/-- Once the reader has left nothing is read, but a tick may still be under way. -/
def step (s : InitConsole) : Event → InitConsole
  | .line raw clocks =>
      if s.view.exit then s else s.perform catalog products clocks (dispatchCommand raw)
  | .tick draws now clocks => s.operate catalog clocks (.tickSimulation draws now)

/-- The presenters have been initialised, which loads the products. -/
def wired : InitConsole := { view := ConsoleView.onProductsLoaded products.getAllProducts {} }

/-- The console when the reader starts. -/
def start (clocks : Nat → Reading) : InitConsole :=
  ((wired products).operate catalog clocks .initializeDemoData).write bannerLines

def after (clocks : Nat → Reading) (session : List Event) : InitConsole :=
  session.foldl (step catalog products) (start catalog products clocks)

end InitConsole

/-! ## The law -/

section Law

variable (catalog : TextCatalog) (products : Products.ProductTable)

/-- What `status` prints if the cards are made of what the model stores. -/
def statusOf (c : SimulatedModel) : List Text :=
  ConsoleView.statusLines
    { lastWorkUnit := some (buildWorkUnitVM c.currentWorkUnit)
      lastEquipment := c.equipmentStatuses.toList.map fun entry =>
        buildEquipmentVM catalog entry.1 entry.2.status
      lastQuality := c.qualityCheckpoints.toList.map fun entry =>
        buildQualityCheckpointVM entry.1 entry.2
      lastControl := some (buildControlPanelVM c.stateMachine.state) }

/-- What is in trouble, by the key of its alarm. -/
inductive Troubled (c : SimulatedModel) : String → Prop
  | equipment {id : Nat} {status : EquipmentStatus}
      (hstored : c.equipmentStatuses.entry id = some status)
      (htrouble : status.status = 0 ∨ status.status = 3) : Troubled c (equipmentKey id)
  | quality {id : Nat} {cp : QualityCheckpoint} (hstored : c.qualityCheckpoints.entry id = some cp)
      (htrouble : checkpointStatus cp ≠ .Passing) : Troubled c (qualityKey id)
  | system (hstate : c.stateMachine.state = .ERROR) : Troubled c kSystemErrorKey

/-- The console shows the model. -/
structure Shows (s : InitConsole) : Prop where
  status : s.view.statusLines = statusOf catalog s.model
  alarms : ∀ key, Listed (s.alertCenter catalog) key ↔ Troubled s.model key

/-- What the reader carries out: the lines up to the one that quits. -/
def actions : List Event → List Action
  | [] => []
  | .tick _ _ _ :: session => actions session
  | .line raw _ :: session =>
      let a := dispatchCommand raw
      a :: if a = .quit then [] else actions session

/-! ### The view -/

open ConsoleView

/-- The card of a line, made of what was reported. -/
def equipmentCard (status : EquipmentStatus) : EquipmentCardViewModel :=
  buildEquipmentVM catalog status.equipmentId status.status

def qualityCard (cp : QualityCheckpoint) : QualityCheckpointViewModel :=
  buildQualityCheckpointVM cp.checkpointId cp

variable (v : ConsoleView) (sent : List Notification)

theorem lastEquipment_observe :
    ((sent.map (card catalog)).foldl observe v).lastEquipment =
      (sent.filterMap fun report => report.equipment?.map (equipmentCard catalog)).foldl
        (FirstMatch.put EquipmentCardViewModel.equipmentId) v.lastEquipment := by
  induction sent generalizing v with
  | nil => rfl
  | cons report sent ih =>
      rw [List.map_cons, List.foldl_cons, ih]
      cases report <;> rfl

theorem lastQuality_observe :
    ((sent.map (card catalog)).foldl observe v).lastQuality =
      (sent.filterMap fun report => report.quality?.map qualityCard).foldl
        (FirstMatch.put QualityCheckpointViewModel.checkpointId) v.lastQuality := by
  induction sent generalizing v with
  | nil => rfl
  | cons report sent ih =>
      rw [List.map_cons, List.foldl_cons, ih]
      cases report <;> rfl

theorem lastWorkUnit_observe :
    ((sent.map (card catalog)).foldl observe v).lastWorkUnit =
      ((lastSaid Notification.workUnit? sent).map buildWorkUnitVM).or v.lastWorkUnit := by
  induction sent using List.reverseRecOn with
  | nil => rfl
  | append_singleton sent report ih =>
      rw [List.map_append, List.foldl_append, lastSaid_concat]
      cases report with
      | workUnit unit => rfl
      | _ => exact ih

theorem lastControl_observe :
    ((sent.map (card catalog)).foldl observe v).lastControl =
      ((lastSaid Notification.systemState? sent).map buildControlPanelVM).or v.lastControl := by
  induction sent using List.reverseRecOn with
  | nil => rfl
  | append_singleton sent report ih =>
      rw [List.map_append, List.foldl_append, lastSaid_concat]
      cases report with
      | systemState state => rfl
      | _ => exact ih

theorem exit_observe (cards : List Card) : (cards.foldl observe v).exit = v.exit := by
  induction cards generalizing v with
  | nil => rfl
  | cons card cards ih =>
      rw [List.foldl_cons, ih]
      cases card <;> rfl

/-! ### What the alarm store is told -/

variable {sent}

/-- The alarm store is told of an operation what the observers were told. -/
theorem lastSaid_happen {β : Type} {said : Happening → Option β} {said' : Notification → Option β}
    {c : SimulatedModel} (clocks : Nat → Reading)
    (h : ∀ report ∈ sent, ∀ r, ((reported c report).bind fun e => said ⟨e, r⟩) = said' report) :
    lastSaid said (happen c sent clocks) = lastSaid said' sent := by
  have hall : ∀ entry ∈ sent.zipIdx,
      ((reported c entry.1).map (⟨·, clocks entry.2⟩ : _ → Happening)).bind said =
        said' entry.1 := by
    intro entry hentry
    rw [Option.bind_map]
    exact h entry.1 (List.fst_mem_of_mem_zipIdx hentry) (clocks entry.2)
  rw [lastSaid, lastSaid, happen, List.filterMap_filterMap, List.filterMap_congr hall]
  refine congrArg List.getLast? ?_
  conv_rhs => rw [← List.zipIdx_map_fst 0 sent, List.filterMap_map]
  rfl

/-- The reports of a line, and what they say of its status. -/
def lineReport (id : Nat) (report : Notification) : Option ℤ :=
  (about Notification.equipment? EquipmentStatus.equipmentId id report).map EquipmentStatus.status

def checkpointReport (id : Nat) (report : Notification) : Option QualityCheckpointStatus :=
  (about Notification.quality? QualityCheckpoint.checkpointId id report).map checkpointStatus

variable {c : SimulatedModel} (clocks : Nat → Reading)

theorem lastEquipmentStatus_happen (id : Nat) :
    lastEquipmentStatus id (happen c sent clocks) = lastSaid (lineReport id) sent := by
  refine lastSaid_happen clocks fun report _ r => ?_
  cases report with
  | equipment status =>
      have habout := @about_of_some _ _ _ _ Notification.equipment? EquipmentStatus.equipmentId id
        (.equipment status) status rfl
      rw [lineReport, habout, reported, Option.bind_some]
      simp only
      split <;> rfl
  | quality checkpoint =>
      have hquiet : lineReport id (.quality checkpoint) = none := rfl
      rw [hquiet, reported]
      cases c.qualityCheckpoints[checkpoint.checkpointId]? <;> rfl
  | _ => rfl

theorem lastCheckpointStatus_happen (id : Nat)
    (hown : ∀ cp, .quality cp ∈ sent → c.qualityCheckpoints[cp.checkpointId]? = some cp) :
    lastCheckpointStatus id (happen c sent clocks) = lastSaid (checkpointReport id) sent := by
  refine lastSaid_happen clocks fun report hreport r => ?_
  cases report with
  | quality checkpoint =>
      have habout := @about_of_some _ _ _ _ Notification.quality? QualityCheckpoint.checkpointId id
        (.quality checkpoint) checkpoint rfl
      rw [checkpointReport, habout, reported, hown checkpoint hreport, Option.map_some,
        Option.bind_some]
      simp only
      split <;> rfl
  | _ => rfl

theorem lastSystemState_happen :
    lastSystemState (happen c sent clocks) = lastSaid Notification.systemState? sent := by
  refine lastSaid_happen clocks fun report _ r => ?_
  cases report with
  | quality checkpoint =>
      simp only [reported]
      cases c.qualityCheckpoints[checkpoint.checkpointId]? <;> rfl
  | _ => rfl

theorem happen_reports {e : Happening} (he : e ∈ happen c sent clocks) (key : String)
    (duration : Int) : e.event ≠ .shelve key duration := by
  obtain ⟨⟨report, i⟩, -, hreport⟩ := List.mem_filterMap.mp he
  obtain ⟨event, hevent, rfl⟩ := Option.map_eq_some_iff.mp hreport
  cases report with
  | quality checkpoint =>
      obtain ⟨cp, -, rfl⟩ := Option.map_eq_some_iff.mp hevent
      exact nofun
  | actuator status => cases hevent
  | _ =>
      obtain rfl := Option.some.inj hevent
      exact nofun

/-! ### What a session keeps -/

/-- The console and the alarm store have been told what the model reported. -/
structure Told (s : InitConsole) (sent : List Notification) : Prop where
  lastEquipment : s.view.lastEquipment =
    cache (fun report => report.equipment?.map (equipmentCard catalog))
      EquipmentCardViewModel.equipmentId sent
  lastQuality : s.view.lastQuality =
    cache (fun report => report.quality?.map qualityCard) QualityCheckpointViewModel.checkpointId
      sent
  lastWorkUnit : s.view.lastWorkUnit = (lastSaid Notification.workUnit? sent).map buildWorkUnitVM
  lastControl : s.view.lastControl =
    (lastSaid Notification.systemState? sent).map buildControlPanelVM
  lines (id : Nat) : lastEquipmentStatus id s.happenings = lastSaid (lineReport id) sent
  checkpoints (id : Nat) :
    lastCheckpointStatus id s.happenings = lastSaid (checkpointReport id) sent
  state : lastSystemState s.happenings = lastSaid Notification.systemState? sent
  offShelf : ∀ e ∈ s.happenings, ∀ key duration, e.event ≠ .shelve key duration

/-- The console knows the model, which has three lines and three checkpoints. -/
structure Follows (s : InitConsole) (sent : List Notification) : Prop where
  told : Told catalog s sent
  known : s.model.KnownBy sent
  sound : s.model.Sound
  lines : s.model.equipmentStatuses.keys = [0, 1, 2]
  checkpoints : s.model.qualityCheckpoints.keys = [0, 1, 2]
  cardsOfLines : s.view.lastEquipment.map EquipmentCardViewModel.equipmentId = [0, 1, 2]
  cardsOfCheckpoints : s.view.lastQuality.map QualityCheckpointViewModel.checkpointId = [0, 1, 2]

variable {catalog} {s : InitConsole}

theorem Told.operate (h : Told catalog s sent) {op : SimulatedModel.Op}
    (hmachine : UpToDate s.model.stateMachine) (hident : (s.model.step op).1.Identified) :
    Told catalog (s.operate catalog clocks op) (sent ++ (s.model.step op).2) := by
  have hcards := cards_eq catalog hmachine hident
  have hown : ∀ cp, .quality cp ∈ (s.model.step op).2 →
      (s.model.step op).1.qualityCheckpoints[cp.checkpointId]? = some cp := by
    intro cp hcp
    obtain ⟨k, hk⟩ := (SimulatedModel.quality_step s.model op).stored hcp
    rw [hident.quality k cp hk]
    exact hk
  have hview : (s.operate catalog clocks op).view =
      ((s.model.step op).2.map (card catalog)).foldl observe s.view := by
    rw [← hcards]
    rfl
  constructor
  · rw [hview, lastEquipment_observe, h.lastEquipment, cache_append]
  · rw [hview, lastQuality_observe, h.lastQuality, cache_append]
  · rw [hview, lastWorkUnit_observe, h.lastWorkUnit, lastSaid_append, Option.map_or]
  · rw [hview, lastControl_observe, h.lastControl, lastSaid_append, Option.map_or]
  · intro id
    rw [InitConsole.operate, lastEquipmentStatus, lastSaid_append, lastSaid_append]
    exact congrArg₂ Option.or (lastEquipmentStatus_happen clocks id) (h.lines id)
  · intro id
    rw [InitConsole.operate, lastCheckpointStatus, lastSaid_append, lastSaid_append]
    exact congrArg₂ Option.or (lastCheckpointStatus_happen clocks id hown) (h.checkpoints id)
  · rw [InitConsole.operate, lastSystemState, lastSaid_append, lastSaid_append]
    exact congrArg₂ Option.or (lastSystemState_happen clocks) h.state
  · exact List.forall_mem_append.mpr ⟨h.offShelf, fun e he => happen_reports clocks he⟩

theorem Told.write (h : Told catalog s sent) (lines : List Text) :
    Told catalog (s.write lines) sent :=
  ⟨h.lastEquipment, h.lastQuality, h.lastWorkUnit, h.lastControl, h.lines, h.checkpoints, h.state,
    h.offShelf⟩

theorem Told.acknowledge (h : Told catalog s sent) (key : Text) :
    Told catalog (s.acknowledge key clocks) sent := by
  rw [InitConsole.acknowledge]
  split
  next => exact h
  next key' hkey =>
    refine ⟨h.lastEquipment, h.lastQuality, h.lastWorkUnit, h.lastControl, fun id => ?_,
      fun id => ?_, ?_, ?_⟩
    · rw [← h.lines id, lastEquipmentStatus, lastSaid_concat]
      rfl
    · rw [← h.checkpoints id, lastCheckpointStatus, lastSaid_concat]
      rfl
    · rw [← h.state, lastSystemState, lastSaid_concat]
      rfl
    · refine List.forall_mem_append.mpr ⟨h.offShelf, List.forall_mem_singleton.mpr ?_⟩
      simp

/-! ### One operation -/

/-- An operation that creates no entry. -/
def Keeps : SimulatedModel.Op → Prop
  | .startProduction | .stopProduction | .resetSystem | .startCalibration => True
  | .tickSimulation _ _ => True
  | .setEquipmentEnabled id _ => id ≠ 3
  | _ => False

theorem mem_of_keys {ν : Type} {m : IdMap ν} (h : m.keys = [0, 1, 2]) (k : Nat) :
    k ∈ m ↔ k < 3 := by
  rw [← Std.ExtTreeMap.mem_keys, h]
  simp only [List.mem_cons, List.not_mem_nil, or_false]
  omega

variable {op : SimulatedModel.Op}

theorem lines_step (hlines : c.equipmentStatuses.keys = [0, 1, 2]) (hop : Keeps op) :
    (c.step op).1.equipmentStatuses.keys = [0, 1, 2] := by
  have hmem := mem_of_keys hlines
  have hown : ∀ (id : Nat) (f : EquipmentStatus → EquipmentStatus), id < 3 →
      (c.equipmentStatuses.subscript id f).keys = [0, 1, 2] := by
    intro id f hid
    rw [← hlines]
    refine keys_congr fun k => (IdMap.mem_subscript _ _ _ _).trans ?_
    exact or_iff_right_of_imp fun h => h ▸ (hmem id).mpr hid
  cases op with
  | startProduction =>
      simp only [SimulatedModel.step, SimulatedModel.startProduction,
        SimulatedModel.simulateProductionCycle, SimulatedModel.andThen_fst]
      split
      next => exact hown _ _ (by simp [SimulatedModel.kBLineId])
      next => exact hlines
  | setEquipmentEnabled id enabled =>
      simp only [SimulatedModel.step, SimulatedModel.setEquipmentEnabled,
        SimulatedModel.changeEquipment]
      split
      next => exact hlines
      next hrange =>
        have hne : id ≠ 3 := hop
        rw [SimulatedModel.kEquipmentCount] at hrange
        exact hown id _ (by omega)
  | tickSimulation draws now =>
      rw [SimulatedModel.step, SimulatedModel.tickSimulation_keeps]
      exact hlines
  | stopProduction => exact hlines
  | resetSystem => exact hlines
  | startCalibration => exact hlines
  | _ => cases hop

theorem checkpoints_step (hcheckpoints : c.qualityCheckpoints.keys = [0, 1, 2]) (hop : Keeps op) :
    (c.step op).1.qualityCheckpoints.keys = [0, 1, 2] := by
  rw [← hcheckpoints]
  refine keys_congr fun k => (SimulatedModel.mem_qualityCheckpoints_step c op k).trans ?_
  cases op <;> first | cases hop; done | exact or_iff_right id

theorem identified_keeps (hlines : c.equipmentStatuses.keys = [0, 1, 2]) (hident : c.Identified)
    (hop : Keeps op) : (c.step op).1.Identified := by
  have hmem := mem_of_keys hlines
  rw [SimulatedModel.identified_step hident]
  cases op with
  | startProduction => exact .inr ((hmem _).mpr (by simp [SimulatedModel.kBLineId]))
  | setEquipmentEnabled id enabled =>
      have hne : id ≠ 3 := hop
      by_cases hid : id < 3
      · exact .inr (.inr ((hmem id).mpr hid))
      · exact .inl (by rw [SimulatedModel.kEquipmentCount]; omega)
  | tickSimulation draws now => trivial
  | stopProduction => trivial
  | resetSystem => trivial
  | startCalibration => trivial
  | _ => cases hop

theorem Follows.operate (h : Follows catalog s sent) (hop : Keeps op) :
    Follows catalog (s.operate catalog clocks op) (sent ++ (s.model.step op).2) := by
  have hident := identified_keeps h.lines h.known.identified hop
  have htold := h.told.operate clocks h.sound.upToDate hident
  have hlines := lines_step h.lines hop
  have hcheckpoints := checkpoints_step h.checkpoints hop
  refine ⟨htold, h.known.step h.sound hident, h.sound.step op, hlines, hcheckpoints, ?_, ?_⟩
  · rw [htold.lastEquipment, cache_append, ← h.told.lastEquipment, map_key_foldl_put,
      h.cardsOfLines]
    intro vm hvm
    obtain ⟨report, hreport, hcard⟩ := List.mem_filterMap.mp hvm
    obtain ⟨status, hstatus, rfl⟩ := Option.map_eq_some_iff.mp hcard
    rw [Notification.equipment?_eq_some] at hstatus
    obtain ⟨k, hk⟩ := (SimulatedModel.equipment_step s.model op).stored (hstatus ▸ hreport)
    rw [h.cardsOfLines, ← hlines, equipmentCard, equipmentId_buildEquipmentVM,
      hident.equipment k status hk, Std.ExtTreeMap.mem_keys]
    exact Std.ExtTreeMap.mem_iff_isSome_getElem?.mpr (Option.isSome_iff_exists.mpr ⟨status, hk⟩)
  · rw [htold.lastQuality, cache_append, ← h.told.lastQuality, map_key_foldl_put,
      h.cardsOfCheckpoints]
    intro vm hvm
    obtain ⟨report, hreport, hcard⟩ := List.mem_filterMap.mp hvm
    obtain ⟨cp, hcp, rfl⟩ := Option.map_eq_some_iff.mp hcard
    rw [Notification.quality?_eq_some] at hcp
    obtain ⟨k, hk⟩ := (SimulatedModel.quality_step s.model op).stored (hcp ▸ hreport)
    rw [h.cardsOfCheckpoints, ← hcheckpoints, qualityCard, checkpointId_buildQualityCheckpointVM,
      hident.quality k cp hk, Std.ExtTreeMap.mem_keys]
    exact Std.ExtTreeMap.mem_iff_isSome_getElem?.mpr (Option.isSome_iff_exists.mpr ⟨cp, hk⟩)

/-! ### The start -/

/-- The model when the console starts, and what it has reported. -/
abbrev demo : Effect := ({} : SimulatedModel).step .initializeDemoData

theorem identified_demo : demo.1.Identified :=
  SimulatedModel.identified_initializeDemoData ⟨IdMap.identified_empty, IdMap.identified_empty⟩

theorem knownBy_demo : demo.1.KnownBy demo.2 := by
  have hlines : Reporting.Step (∅ : IdMap EquipmentStatus).entry demo.1.equipmentStatuses.entry
      fun status => ∃ report ∈ demo.2, report.equipment? = some status := by
    simpa only [Notification.equipment?_eq_some, exists_eq_right] using
      SimulatedModel.equipment_step {} .initializeDemoData
  have hactuators : Reporting.Step (∅ : IdMap ActuatorStatus).entry demo.1.actuatorStatuses.entry
      fun status => ∃ report ∈ demo.2, report.actuator? = some status := by
    simpa only [Notification.actuator?_eq_some, exists_eq_right] using
      SimulatedModel.actuator_step {} .initializeDemoData
  have hcheckpoints : Reporting.Step (∅ : IdMap QualityCheckpoint).entry
      demo.1.qualityCheckpoints.entry
      fun cp => ∃ report ∈ demo.2, report.quality? = some cp := by
    simpa only [Notification.quality?_eq_some, exists_eq_right] using
      SimulatedModel.quality_step {} .initializeDemoData
  have hsound := SimulatedModel.sound_initial.step .initializeDemoData
  exact ⟨known_of_step (by simp) identified_demo.equipment hlines,
    known_of_step (by simp) hsound.actuators hactuators,
    known_of_step (by simp) identified_demo.quality hcheckpoints, rfl, rfl⟩

theorem follows_start : Follows catalog (InitConsole.start catalog products clocks) demo.2 := by
  have hfresh : Told catalog (InitConsole.wired products) [] :=
    ⟨rfl, rfl, rfl, rfl, fun _ => rfl, fun _ => rfl, rfl, List.forall_mem_nil _⟩
  have hsound := SimulatedModel.sound_initial
  have htold := hfresh.operate clocks hsound.upToDate identified_demo
  rw [List.nil_append] at htold
  exact ⟨htold.write bannerLines, knownBy_demo, hsound.step .initializeDemoData, rfl, rfl, rfl, rfl⟩

/-! ### What is shown -/

theorem Follows.equipmentCards (h : Follows catalog s sent) :
    s.view.lastEquipment = s.model.equipmentStatuses.toList.map fun entry =>
      buildEquipmentVM catalog entry.1 entry.2.status := by
  have hkey : ∀ (id : Nat) (status : EquipmentStatus),
      (buildEquipmentVM catalog id status.status).equipmentId = id :=
    fun id status => equipmentId_buildEquipmentVM catalog id status.status
  have hcard : ∀ status : EquipmentStatus,
      (equipmentCard catalog status).equipmentId = status.equipmentId := fun status => hkey _ status
  have hnodup : (s.view.lastEquipment.map EquipmentCardViewModel.equipmentId).Nodup := by
    simp [h.cardsOfLines]
  refine FirstMatch.eq_of_find hnodup ?_ fun k => ?_
  · rw [h.cardsOfLines, map_key_toList hkey, h.lines]
  · rw [find_toList hkey, h.told.lastEquipment, h.known.equipment.find_cache hcard]
    refine Option.map_congr fun status hstatus => ?_
    rw [equipmentCard, h.known.identified.equipment k status hstatus]

theorem Follows.qualityCards (h : Follows catalog s sent) :
    s.view.lastQuality = s.model.qualityCheckpoints.toList.map fun entry =>
      buildQualityCheckpointVM entry.1 entry.2 := by
  have hkey : ∀ (id : Nat) (cp : QualityCheckpoint),
      (buildQualityCheckpointVM id cp).checkpointId = id := fun _ _ => rfl
  have hcard : ∀ cp, (qualityCard cp).checkpointId = cp.checkpointId := fun _ => rfl
  have hnodup : (s.view.lastQuality.map QualityCheckpointViewModel.checkpointId).Nodup := by
    simp [h.cardsOfCheckpoints]
  refine FirstMatch.eq_of_find hnodup ?_ fun k => ?_
  · rw [h.cardsOfCheckpoints, map_key_toList hkey, h.checkpoints]
  · rw [find_toList hkey, h.told.lastQuality, h.known.quality.find_cache hcard]
    refine Option.map_congr fun cp hcp => ?_
    rw [qualityCard, h.known.identified.quality k cp hcp]

theorem Follows.lastEquipmentStatus (h : Follows catalog s sent) (id : Nat) :
    DashboardAlarms.lastEquipmentStatus id s.happenings =
      (s.model.equipmentStatuses.entry id).map EquipmentStatus.status := by
  rw [h.told.lines id, ← h.known.equipment id, ← lastSaid_map]
  rfl

theorem Follows.lastCheckpointStatus (h : Follows catalog s sent) (id : Nat) :
    DashboardAlarms.lastCheckpointStatus id s.happenings =
      (s.model.qualityCheckpoints.entry id).map checkpointStatus := by
  rw [h.told.checkpoints id, ← h.known.quality id, ← lastSaid_map]
  rfl

/-- An alarm was raised last if what it is about is in trouble. -/
theorem Follows.raised_iff (h : Follows catalog s sent) (key : String) :
    lastInput key (DashboardAlarms.after catalog s.happenings).calls = some .raise ↔
      Troubled s.model key := by
  have hline : ∀ id,
      lastInput (equipmentKey id) (DashboardAlarms.after catalog s.happenings).calls = some .raise ↔
        ∃ status, s.model.equipmentStatuses.entry id = some status ∧
          (status.status = 0 ∨ status.status = 3) := by
    intro id
    rw [lastInput_equipment, h.lastEquipmentStatus, Option.map_map, Option.map_eq_some_iff]
    refine exists_congr fun status => and_congr_right fun _ => ?_
    simp only [Function.comp, equipmentInput]
    split <;> simp_all
  have hcheckpoint : ∀ id,
      lastInput (qualityKey id) (DashboardAlarms.after catalog s.happenings).calls = some .raise ↔
        ∃ cp, s.model.qualityCheckpoints.entry id = some cp ∧ checkpointStatus cp ≠ .Passing := by
    intro id
    rw [lastInput_quality, h.lastCheckpointStatus, Option.map_map, Option.map_eq_some_iff]
    refine exists_congr fun cp => and_congr_right fun _ => ?_
    simp only [Function.comp, checkpointInput]
    split <;> simp_all
  have hsystem :
      lastInput kSystemErrorKey (DashboardAlarms.after catalog s.happenings).calls = some .raise ↔
        s.model.stateMachine.state = .ERROR := by
    rw [lastInput_system, prevSystemState_after, h.told.state, h.known.systemState]
    rfl
  constructor
  · intro hraised
    by_cases hkey : key = kSystemErrorKey
    · subst hkey
      exact .system (hsystem.mp hraised)
    · have hinput := hraised
      rw [lastInput_after catalog hkey] at hinput
      obtain ⟨e, -, he⟩ := exists_of_lastSaid hinput
      obtain ⟨event, r⟩ := e
      cases event with
      | equipmentStatus id status =>
          obtain ⟨hid, -⟩ := Option.ite_none_right_eq_some.mp he
          subst hid
          obtain ⟨status, hstored, htrouble⟩ := (hline id).mp hraised
          exact .equipment hstored htrouble
      | qualityCheckpoint id cp =>
          obtain ⟨hid, -⟩ := Option.ite_none_right_eq_some.mp he
          subst hid
          obtain ⟨cp, hstored, htrouble⟩ := (hcheckpoint id).mp hraised
          exact .quality hstored htrouble
      | _ => cases he
  · rintro (⟨hstored, htrouble⟩ | ⟨hstored, htrouble⟩ | hstate)
    · exact (hline _).mpr ⟨_, hstored, htrouble⟩
    · exact (hcheckpoint _).mpr ⟨_, hstored, htrouble⟩
    · exact hsystem.mpr hstate

/-- The alarm store is called for nothing that puts an alarm on the shelf. -/
theorem offShelf_after {run : List Happening}
    (h : ∀ e ∈ run, ∀ key duration, e.event ≠ .shelve key duration) :
    OffShelf (DashboardAlarms.after catalog run).calls := by
  induction run using List.reverseRecOn with
  | nil => exact List.forall_mem_nil _
  | append_singleton run e ih =>
      obtain ⟨hrun, he⟩ := List.forall_mem_append.mp h
      have hcalls := ih hrun
      have hcall : ∀ (op : AlertCenter.Op Retranslate) (r : Reading),
          (∀ key duration, op ≠ .shelve key duration) →
          OffShelf ((DashboardAlarms.after catalog run).call op r).calls := fun op r hop =>
        List.forall_mem_append.mpr ⟨hcalls, List.forall_mem_singleton.mpr hop⟩
      rw [DashboardAlarms.after_concat]
      obtain ⟨event, r⟩ := e
      cases event with
      | equipmentStatus id status =>
          simp only [DashboardAlarms.handle, handleEquipmentStatusUpdate]
          split <;> exact hcall _ r (by simp)
      | qualityCheckpoint id cp =>
          simp only [DashboardAlarms.handle, handleQualityCheckpointUpdate]
          split <;> exact hcall _ r (by simp)
      | systemState newState reason =>
          simp only [DashboardAlarms.handle, handleSystemStateChanged]
          split
          · exact hcall _ r (by simp)
          · split
            · exact hcall _ r (by simp)
            · exact hcalls
      | newWorkUnit => exact hcall _ r (by simp)
      | acknowledge key => exact hcall _ r (by simp)
      | unshelve key => exact hcall _ r (by simp)
      | shelve key duration => exact absurd rfl (he _ List.mem_cons_self key duration)

theorem Follows.shows (h : Follows catalog s sent) : Shows catalog s where
  status := by
    simp only [statusOf, statusLines, h.equipmentCards, h.qualityCards, h.told.lastWorkUnit,
      h.told.lastControl, h.known.workUnit, h.known.systemState, Option.map_some]
  alarms key := by
    rw [← h.raised_iff key, ← active_iff catalog s.happenings key]
    exact listed_iff (after_unique _ _) (after_consistent _ _ _)
      ((offShelf_after h.told.offShelf).status key)

/-! ### One line -/

theorem Follows.write (h : Follows catalog s sent) (lines : List Text) :
    Follows catalog (s.write lines) sent :=
  ⟨h.told.write lines, h.known, h.sound, h.lines, h.checkpoints, h.cardsOfLines,
    h.cardsOfCheckpoints⟩

theorem Follows.acknowledge (h : Follows catalog s sent) (key : Text) :
    Follows catalog (s.acknowledge key clocks) sent := by
  have htold := h.told.acknowledge clocks key
  rw [InitConsole.acknowledge] at htold ⊢
  split at htold
  next => exact h
  next => exact ⟨htold, h.known, h.sound, h.lines, h.checkpoints, h.cardsOfLines,
    h.cardsOfCheckpoints⟩

/-- An action that switches no line that is not there is followed. -/
theorem Follows.perform (h : Follows catalog s sent) {a : Action}
    (ha : ∀ enabled, a ≠ .toggleEquipment 3 enabled) :
    ∃ sent', Follows catalog (s.perform catalog products clocks a) sent' := by
  cases a with
  | nothing => exact ⟨sent, h⟩
  | help => exact ⟨sent, h.write _⟩
  | status => exact ⟨sent, h.write _⟩
  | alerts => exact ⟨sent, h.write _⟩
  | dismiss key => exact ⟨sent, h.acknowledge clocks key⟩
  | products =>
      exact ⟨sent, ⟨h.told.lastEquipment, h.told.lastQuality, h.told.lastWorkUnit,
        h.told.lastControl, h.told.lines, h.told.checkpoints, h.told.state, h.told.offShelf⟩,
        h.known, h.sound, h.lines, h.checkpoints, h.cardsOfLines, h.cardsOfCheckpoints⟩
  | view id => exact ⟨sent, h.write _⟩
  | quit =>
      exact ⟨sent, ⟨h.told.lastEquipment, h.told.lastQuality, h.told.lastWorkUnit,
        h.told.lastControl, h.told.lines, h.told.checkpoints, h.told.state, h.told.offShelf⟩,
        h.known, h.sound, h.lines, h.checkpoints, h.cardsOfLines, h.cardsOfCheckpoints⟩
  | refuse message => exact ⟨sent, h.write _⟩
  | start => exact ⟨_, h.operate clocks (show Keeps .startProduction from trivial)⟩
  | stop => exact ⟨_, h.operate clocks (show Keeps .stopProduction from trivial)⟩
  | reset => exact ⟨_, h.operate clocks (show Keeps .resetSystem from trivial)⟩
  | calibrate => exact ⟨_, h.operate clocks (show Keeps .startCalibration from trivial)⟩
  | toggleEquipment id enabled =>
      have hne : Keeps (.setEquipmentEnabled id enabled) := fun hid => ha enabled (by rw [hid])
      exact ⟨_, h.operate clocks hne⟩

theorem exit_operate (s : InitConsole) (op : SimulatedModel.Op) :
    (s.operate catalog clocks op).view.exit = s.view.exit := exit_observe s.view _

theorem exit_write (s : InitConsole) (lines : List Text) :
    (s.write lines).view.exit = s.view.exit := rfl

theorem exit_perform (s : InitConsole) (a : Action) :
    (s.perform catalog products clocks a).view.exit = (s.view.exit || decide (a = .quit)) := by
  cases a with
  | quit => simp [InitConsole.perform]
  | dismiss key =>
      simp only [InitConsole.perform, InitConsole.acknowledge]
      split <;> simp
  | start => exact (exit_operate clocks s .startProduction).trans (Bool.or_false _).symm
  | stop => exact (exit_operate clocks s .stopProduction).trans (Bool.or_false _).symm
  | reset => exact (exit_operate clocks s .resetSystem).trans (Bool.or_false _).symm
  | calibrate => exact (exit_operate clocks s .startCalibration).trans (Bool.or_false _).symm
  | toggleEquipment id enabled =>
      exact (exit_operate clocks s (.setEquipmentEnabled id enabled)).trans (Bool.or_false _).symm
  | _ => exact (Bool.or_false _).symm

/-! ### A session -/

theorem actions_concat_line (session : List Event) (raw : Text) :
    actions (session ++ [.line raw clocks]) =
      if .quit ∈ actions session then actions session
      else actions session ++ [dispatchCommand raw] := by
  induction session with
  | nil => simp [actions]
  | cons e session ih =>
      cases e with
      | tick draws now clocks' => exact ih
      | line raw' clocks' =>
          rw [List.cons_append, actions, actions, ih]
          by_cases hquit : dispatchCommand raw' = .quit
          · simp [hquit]
          · have hne : ¬ Action.quit = dispatchCommand raw' := fun h => hquit h.symm
            simp only [hquit, if_false, List.mem_cons, hne, false_or]
            split <;> rfl

theorem actions_concat_tick (session : List Event) (draws : SimulatedModel.Draws) (now : ℤ) :
    actions (session ++ [.tick draws now clocks]) = actions session := by
  induction session with
  | nil => rfl
  | cons e session ih =>
      cases e with
      | tick draws' now' clocks' => exact ih
      | line raw clocks' => rw [List.cons_append, actions, actions, ih]

theorem actions_of_done {done session : List Event} (h : done <+: session) :
    actions done <+: actions session := by
  obtain ⟨more, rfl⟩ := h
  induction more using List.reverseRecOn with
  | nil => rw [List.append_nil]
  | append_singleton more e ih =>
      rw [← List.append_assoc]
      cases e with
      | tick draws now clocks' => rwa [actions_concat_tick]
      | line raw clocks' =>
          rw [actions_concat_line]
          split
          · exact ih
          · exact ih.trans (List.prefix_append _ _)

theorem after_concat (session : List Event) (e : Event) :
    InitConsole.after catalog products clocks (session ++ [e]) =
      (InitConsole.after catalog products clocks session).step catalog products e :=
  List.foldl_concat _ _ e session

/-- The reader leaves with the line that quits. -/
theorem exit_after (session : List Event) :
    (InitConsole.after catalog products clocks session).view.exit =
      decide (.quit ∈ actions session) := by
  induction session using List.reverseRecOn with
  | nil =>
      rw [InitConsole.after, List.foldl_nil, InitConsole.start, exit_write, exit_operate]
      rfl
  | append_singleton session e ih =>
      rw [after_concat]
      cases e with
      | tick draws now clocks' =>
          rw [actions_concat_tick, ← ih]
          exact exit_operate clocks' _ _
      | line raw clocks' =>
          rw [actions_concat_line, InitConsole.step, ih]
          by_cases hquit : .quit ∈ actions session
          · simp [hquit, ih]
          · simp [hquit, exit_perform, ih, eq_comm]

/-! ### The line that is not there -/

theorem length_statusLines (v : ConsoleView) : v.statusLines.length =
    v.lastWorkUnit.toList.length + v.lastEquipment.length + v.lastQuality.length +
      v.lastControl.toList.length + 2 := by
  simp only [statusLines, List.length_append, List.length_cons, List.length_map, List.length_nil]
  omega

theorem length_statusOf (c : SimulatedModel) : (statusOf catalog c).length =
    c.equipmentStatuses.size + c.qualityCheckpoints.size + 4 := by
  rw [statusOf, length_statusLines]
  simp
  omega

theorem size_subscript {ν : Type} [Inhabited ν] {m : IdMap ν} {id : Nat} (f : ν → ν)
    (h : id ∉ m) : (m.subscript id f).size = m.size + 1 := by
  rw [IdMap.subscript, Std.ExtTreeMap.size_insert, if_neg (by simpa using h)]

/-- The record of a line that is created says that it is the first line, whose card it takes. -/
theorem Follows.not_shows (h : Follows catalog s sent) (enabled : Bool) :
    ¬ Shows catalog (s.operate catalog clocks (.setEquipmentEnabled 3 enabled)) := by
  intro hshows
  have habsent : 3 ∉ s.model.equipmentStatuses := fun hmem =>
    absurd ((mem_of_keys h.lines 3).mp hmem) (by simp)
  have hstatus : s.model.equipmentStatuses[3]? = none := Std.ExtTreeMap.getElem?_eq_none habsent
  have hcard : ∃ vm : EquipmentCardViewModel, vm.equipmentId = 0 ∧
      (s.operate catalog clocks (.setEquipmentEnabled 3 enabled)).view =
        observe s.view (.equipment vm) := by
    refine ⟨buildEquipmentVM catalog 0 (if enabled then SimulatedModel.kEquipmentStatusOnline
      else SimulatedModel.kEquipmentStatusOffline), equipmentId_buildEquipmentVM _ _ _, ?_⟩
    simp only [InitConsole.operate, SimulatedModel.step, SimulatedModel.setEquipmentEnabled,
      SimulatedModel.changeEquipment, SimulatedModel.kEquipmentCount,
      SimulatedModel.notifyEquipmentChange, IdMap.get_subscript_self, hstatus]
    rfl
  obtain ⟨vm, hvm, hview⟩ := hcard
  have hzero : vm.equipmentId ∈ s.view.lastEquipment.map EquipmentCardViewModel.equipmentId := by
    simp [h.cardsOfLines, hvm]
  have hlength :
      (FirstMatch.put EquipmentCardViewModel.equipmentId s.view.lastEquipment vm).length =
        s.view.lastEquipment.length := by
    simpa using congrArg List.length (FirstMatch.map_key_put hzero)
  have hcards := congrArg List.length h.cardsOfLines
  have hquality := congrArg List.length h.cardsOfCheckpoints
  rw [List.length_map] at hcards hquality
  have hlines := congrArg List.length h.lines
  have hcheckpoints := congrArg List.length h.checkpoints
  rw [Std.ExtTreeMap.length_keys] at hlines hcheckpoints
  have hsize :
      (s.operate catalog clocks (.setEquipmentEnabled 3 enabled)).model.equipmentStatuses.size =
        s.model.equipmentStatuses.size + 1 := size_subscript _ habsent
  have hkept :
      (s.operate catalog clocks (.setEquipmentEnabled 3 enabled)).model.qualityCheckpoints =
        s.model.qualityCheckpoints := rfl
  have hlast : s.view.lastWorkUnit.toList.length = 1 ∧ s.view.lastControl.toList.length = 1 := by
    rw [h.told.lastWorkUnit, h.told.lastControl, h.known.workUnit, h.known.systemState]
    exact ⟨rfl, rfl⟩
  have hsame := congrArg List.length hshows.status
  rw [length_statusOf, length_statusLines, hview, hsize, hkept] at hsame
  simp only [observe, onEquipmentCardChanged, ConsoleView.write, hlength] at hsame
  simp at hlines hcheckpoints hcards hquality
  omega

/-! ### A session -/

/-- A session in which nobody switches the line 3 is followed. -/
theorem follows_after (session : List Event)
    (hsession : ∀ enabled, .toggleEquipment 3 enabled ∉ actions session) :
    ∃ sent, Follows catalog (InitConsole.after catalog products clocks session) sent := by
  induction session using List.reverseRecOn with
  | nil => exact ⟨_, follows_start products clocks⟩
  | append_singleton session e ih =>
      rw [after_concat]
      cases e with
      | tick draws now clocks' =>
          simp only [actions_concat_tick] at hsession
          obtain ⟨sent, hsent⟩ := ih hsession
          have hkeeps : Keeps (.tickSimulation draws now) := trivial
          exact ⟨_, hsent.operate clocks' hkeeps⟩
      | line raw clocks' =>
          simp only [actions_concat_line] at hsession
          rw [InitConsole.step, exit_after]
          by_cases hquit : .quit ∈ actions session
          · simp only [hquit, if_true] at hsession
            simpa [hquit] using ih hsession
          · simp only [hquit, if_false, List.mem_append, List.mem_singleton, not_or] at hsession
            obtain ⟨sent, hsent⟩ := ih fun enabled => (hsession enabled).1
            simpa [hquit] using hsent.perform products clocks' fun enabled h =>
              (hsession enabled).2 h.symm

/-- **What the console shows is what the model stores**, throughout a session, exactly if no line of
it that is carried out switches the line 3. -/
theorem session_law (session : List Event) :
    (∀ done, done <+: session → Shows catalog (InitConsole.after catalog products clocks done)) ↔
      ∀ enabled, .toggleEquipment 3 enabled ∉ actions session := by
  constructor
  · intro hshows
    induction session using List.reverseRecOn with
    | nil => exact fun enabled => List.not_mem_nil
    | append_singleton session e ih =>
        have hbefore := ih fun done hdone => hshows done (hdone.trans (List.prefix_append _ _))
        obtain ⟨sent, hsent⟩ := follows_after products clocks session hbefore
        have hlast := hshows _ List.prefix_rfl
        rw [after_concat] at hlast
        cases e with
        | tick draws now clocks' =>
            rw [actions_concat_tick]
            exact hbefore
        | line raw clocks' =>
            rw [InitConsole.step, exit_after] at hlast
            rw [actions_concat_line]
            by_cases hquit : .quit ∈ actions session
            · simpa [hquit] using hbefore
            · intro enabled hmem
              simp only [hquit, if_false, List.mem_append, List.mem_singleton] at hmem
              rcases hmem with hmem | hraw
              · exact hbefore enabled hmem
              · simp only [hquit, decide_false, Bool.false_eq_true, if_false, ← hraw] at hlast
                exact hsent.not_shows clocks' enabled hlast
  · intro hsession done hdone
    have hdone' : ∀ enabled, .toggleEquipment 3 enabled ∉ actions done := by
      intro enabled hmem
      exact hsession enabled ((actions_of_done hdone).subset hmem)
    obtain ⟨sent, hsent⟩ := follows_after products clocks done hdone'
    exact hsent.shows

-- The scenario `start-stop-cycle` of the tests, after the lines that every session starts with.
example :
    let clocks : Nat → Reading := fun _ => ⟨0, fun _ => "12:00:00"⟩
    let session := ["start", "stop", "quit"].map fun text => Event.line (ascii text) clocks
    (InitConsole.after ⟨id, fun text _ => text⟩ .empty clocks session).view.out.drop 15 =
      [ascii "[CONTROL  ] start=false stop=true reset=false calib=false",
        ascii "[WORK_UNIT] id=WU-2024-001234 product=TAB-200 progress=4/5",
        ascii "[EQUIPMENT] id=1 status=PROCESSING enabled=true",
        ascii "[CONTROL  ] start=true stop=false reset=true calib=true",
        ascii "[BYE      ] Shutting down."] := by
  decide +kernel

end Law

end Console
