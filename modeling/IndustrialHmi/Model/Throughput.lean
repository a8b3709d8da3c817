import Mathlib.Data.Int.ConditionallyCompleteOrder
import IndustrialHmi.Model.WorkUnitProgress
import IndustrialHmi.Theory.SlidingWindow

/-!
# The throughput of a run

The meter is a sliding window over the rollovers of the work unit.  As the clock of the ticks
never goes back, the rate a tick shows is that of the rollovers of the last two minutes since
the last fresh start, however often it was asked for in between.
-/

namespace Production

namespace SimulatedModel

def MeterCall.toWindow : MeterCall → SlidingWindow.Call ℤ
  | .recordCompletion now => .note now
  | .unitsPerHour now => .look now
  | .clear => .clear

/-- The moment before which a completion is too old. -/
def cutoff (now : ℤ) : ℤ := now - 120 * 10 ^ 9

/-- The intervals between completions in order of time, scaled to an hour; with fewer than two
there is no span, and the rate is nought. -/
def hourlyRate (completions : List ℤ) : ℚ :=
  (completions.length - 1) * 3600 /
    (((completions.getLastD 0 - completions.headD 0 : ℤ) : ℚ) / 10 ^ 9)

/-- The rate that the operation makes the work unit show: a tick that of its moment, a fresh
start and the demonstration none. -/
def shows? : SimulatedModel × Op → Option (Option ℤ)
  | (_, .tickSimulation _ now) => some (some now)
  | (_, .resetSystem) | (_, .loadProduct _ _) | (_, .initializeDemoData) => some none
  | _ => none

def tickTime? : Op → Option ℤ
  | .tickSimulation _ now => some now
  | _ => none

/-- The clock of the ticks never goes back. -/
def ClockForward (run : List Op) : Prop := (run.filterMap tickTime?).Pairwise (· ≤ ·)

/-- The rate after a run. -/
def shownRate (run : List Op) : ℚ :=
  match (lastSaid shows? (({} : SimulatedModel).steps run)).join with
  | some now => hourlyRate ((rolloversSinceRestart {} run).filter (cutoff now ≤ ·))
  | none => 0

structure ThroughputLaw (run : List Op) : Prop where
  shown : (({} : SimulatedModel).after run).currentWorkUnit.throughputUnitsPerHour = shownRate run
  /-- Every work unit that observers are told of shows the rate of its moment. -/
  told : ∀ before op later, run = before ++ op :: later → ∀ workUnit,
    .workUnit workUnit ∈ ((({} : SimulatedModel).after before).step op).2 →
      workUnit.throughputUnitsPerHour = shownRate (before ++ [op])
  /-- The meter never keeps more than the rollovers since the last fresh start. -/
  kept : (({} : SimulatedModel).after run).throughputMeter.completions.Sublist
    (rolloversSinceRestart {} run)
  nonneg : 0 ≤ shownRate run

/-! ## The meter as a window -/

theorem apply_unitsPerHour (m : ThroughputMeter) (now : ℤ) :
    (m.unitsPerHour now).1 = m.evictOlderThan (now - m.window) := by
  rw [ThroughputMeter.unitsPerHour]
  dsimp only
  split_ifs <;> rfl

/-- The meter holds what the window holds, and the length of the window stays. -/
theorem foldl_apply (calls : List MeterCall) :
    calls.foldl MeterCall.apply {} =
      { completions := SlidingWindow.held cutoff (calls.map MeterCall.toWindow) } := by
  induction calls using List.reverseRecOn with
  | nil => rfl
  | append_singleton calls last ih =>
      rw [List.foldl_append, ih, List.map_append, List.map_singleton, SlidingWindow.held_concat]
      cases last with
      | recordCompletion now => rfl
      | unitsPerHour now => exact apply_unitsPerHour _ now
      | clear => rfl

theorem cutoff_monotone : Monotone cutoff := fun _ _ h => Int.sub_le_sub_right h _

theorem cutoff_le (now : ℤ) : cutoff now ≤ now := by
  rw [cutoff]
  omega

theorem noted_map_toWindow (calls : List MeterCall) :
    SlidingWindow.noted (calls.map MeterCall.toWindow) = completionsSinceClear calls := by
  induction calls using List.reverseRecOn with
  | nil => rfl
  | append_singleton calls last ih =>
      rw [List.map_append, List.map_singleton, completionsSinceClear, sinceLast_concat]
      cases last with
      | recordCompletion now =>
          rw [MeterCall.toWindow, SlidingWindow.noted_concat_note, ih,
            if_neg (by simp), List.filterMap_append]
          rfl
      | unitsPerHour now =>
          rw [MeterCall.toWindow, SlidingWindow.noted_concat_look, ih,
            if_neg (by simp), List.filterMap_append]
          exact (List.append_nil _).symm
      | clear => exact SlidingWindow.noted_concat_clear _

/-! ## The clock of the calls -/

/-- The moments of the calls an operation makes are that of its tick. -/
theorem moments_meterCalls (c : SimulatedModel) (op : Op) {moment : ℤ}
    (h : moment ∈ ((op.meterCalls c).map MeterCall.toWindow).filterMap
      SlidingWindow.Call.moment?) : tickTime? op = some moment := by
  cases op with
  | tickSimulation draws now =>
      rw [Op.meterCalls] at h
      split at h <;> simp [MeterCall.toWindow, SlidingWindow.Call.moment?] at h <;>
        exact congrArg some h.symm
  | _ => simp [Op.meterCalls, MeterCall.toWindow, SlidingWindow.Call.moment?] at h

theorem forward_op (c : SimulatedModel) (op : Op) :
    SlidingWindow.Forward ((op.meterCalls c).map MeterCall.toWindow) := by
  refine List.pairwise_of_forall_mem_list fun a ha b hb => ?_
  have hsame := (moments_meterCalls c op ha).symm.trans (moments_meterCalls c op hb)
  exact (Option.some.inj hsame).le

theorem moments_run (c : SimulatedModel) (run : List Op) {moment : ℤ}
    (h : moment ∈ ((c.meterCalls run).map MeterCall.toWindow).filterMap
      SlidingWindow.Call.moment?) : moment ∈ run.filterMap tickTime? := by
  induction run using List.reverseRecOn with
  | nil => simp [meterCalls, steps] at h
  | append_singleton run op ih =>
      rw [meterCalls_concat, List.map_append, List.filterMap_append] at h
      rw [List.filterMap_append]
      rcases List.mem_append.mp h with hearlier | hlast
      · exact List.mem_append_left _ (ih hearlier)
      · refine List.mem_append_right _ ?_
        rw [List.filterMap_cons_some (moments_meterCalls _ op hlast)]
        exact List.mem_cons_self

/-- As the clock never goes back, the calls of the meter never do. -/
theorem forward_meterCalls {run : List Op} (hclock : ClockForward run) :
    SlidingWindow.Forward ((meterCalls {} run).map MeterCall.toWindow) := by
  induction run using List.reverseRecOn with
  | nil => exact List.Pairwise.nil
  | append_singleton run op ih =>
      rw [ClockForward, List.filterMap_append] at hclock
      obtain ⟨hearlier, -, hbetween⟩ := List.pairwise_append.mp hclock
      rw [meterCalls_concat, List.map_append, SlidingWindow.Forward, List.filterMap_append]
      refine List.pairwise_append.mpr ⟨ih hearlier, forward_op _ op, fun a ha b hb => ?_⟩
      refine hbetween a (moments_run _ run ha) b ?_
      rw [List.filterMap_cons_some (moments_meterCalls _ op hb)]
      exact List.mem_cons_self

/-! ## What the meter keeps -/

/-- The meter keeps the rollovers since the last fresh start that were recent when last asked. -/
theorem completions_after {run : List Op} (hrun : ∀ op ∈ run, op.RecipeCounts)
    (hclock : ClockForward run) :
    (({} : SimulatedModel).after run).throughputMeter.completions =
      (rolloversSinceRestart {} run).filter (SlidingWindow.recent cutoff
        (SlidingWindow.lastLook ((meterCalls {} run).map MeterCall.toWindow))) := by
  have hmeter := (throughputMeter_after {} run).trans (foldl_apply _)
  have hheld := SlidingWindow.held_eq_filter cutoff_monotone cutoff_le (forward_meterCalls hclock)
  rw [noted_map_toWindow, completionsSinceClear_meterCalls hrun] at hheld
  exact (congrArg ThroughputMeter.completions hmeter).trans hheld

theorem pairwise_rollovers {run : List Op} (hrun : ∀ op ∈ run, op.RecipeCounts)
    (hclock : ClockForward run) : (rolloversSinceRestart {} run).Pairwise (· ≤ ·) := by
  have hnoted := noted_map_toWindow (meterCalls {} run)
  rw [completionsSinceClear_meterCalls hrun] at hnoted
  rw [← hnoted]
  exact List.Pairwise.sublist (SlidingWindow.noted_sublist _) (forward_meterCalls hclock)

/-- A tick asks the meter last. -/
theorem meterCalls_tick (c : SimulatedModel) (draws : Draws) (now : ℤ) : ∃ earlier,
    (Op.tickSimulation draws now).meterCalls c = earlier ++ [.unitsPerHour now] := by
  rw [Op.meterCalls]
  split
  · exact ⟨[], rfl⟩
  · exact ⟨[.recordCompletion now], rfl⟩

theorem lastLook_tick (c : SimulatedModel) (run : List Op) (draws : Draws) (now : ℤ) :
    SlidingWindow.lastLook
      ((c.meterCalls (run ++ [.tickSimulation draws now])).map MeterCall.toWindow) = some now := by
  obtain ⟨earlier, hearlier⟩ := meterCalls_tick (c.after run) draws now
  rw [meterCalls_concat, hearlier, ← List.append_assoc, List.map_append]
  exact SlidingWindow.lastLook_concat_look _ now

/-! ## The rate -/

theorem span_nonneg {completions : List ℤ} (hsorted : completions.Pairwise (· ≤ ·)) :
    0 ≤ completions.getLastD 0 - completions.headD 0 := by
  cases completions with
  | nil => exact le_rfl
  | cons first later =>
      rcases List.eq_nil_or_concat later with rfl | ⟨between, last, rfl⟩
      · simp
      · have hle := (List.pairwise_cons.mp hsorted).1 last (by simp)
        rw [List.concat_eq_append, ← List.cons_append, List.getLastD_concat]
        exact sub_nonneg.mpr hle

theorem hourlyRate_nonneg {completions : List ℤ} (hsorted : completions.Pairwise (· ≤ ·)) :
    0 ≤ hourlyRate completions := by
  have hspan : (0 : ℚ) ≤ ((completions.getLastD 0 - completions.headD 0 : ℤ) : ℚ) / 10 ^ 9 :=
    div_nonneg (Int.cast_nonneg (span_nonneg hsorted)) (by norm_num)
  rcases completions with - | ⟨first, later⟩
  · simp [hourlyRate]
  · refine div_nonneg (mul_nonneg ?_ (by norm_num)) hspan
    simp

/-- Of fewer than two completions there is no rate. -/
theorem hourlyRate_of_length_lt {completions : List ℤ} (h : completions.length < 2) :
    hourlyRate completions = 0 := by
  rcases completions with - | ⟨first, - | ⟨second, later⟩⟩
  · simp [hourlyRate]
  · simp [hourlyRate]
  · exact absurd h (by simp)

/-- The tests the meter makes leave the rate as it is. -/
theorem unitsPerHour_eq {m : ThroughputMeter} {now : ℤ}
    (hsorted : (m.evictOlderThan (now - m.window)).completions.Pairwise (· ≤ ·)) :
    (m.unitsPerHour now).2 = hourlyRate (m.evictOlderThan (now - m.window)).completions := by
  rw [ThroughputMeter.unitsPerHour]
  dsimp only
  generalize (m.evictOlderThan (now - m.window)).completions = completions at hsorted ⊢
  split
  next hfew => exact (hourlyRate_of_length_lt hfew).symm
  next hmany =>
    split
    next hinstant =>
      -- All of them in one instant: the span is nought.
      have hspan : (((completions.getLastD 0 - completions.headD 0 : ℤ) : ℚ) / 10 ^ 9) = 0 :=
        le_antisymm hinstant (div_nonneg (Int.cast_nonneg (span_nonneg hsorted)) (by norm_num))
      simp only [hourlyRate, hspan, div_zero]
    next hspan => simp [hourlyRate]

/-! ## What an operation shows -/

/-- The rate of the work unit after an operation. -/
theorem step_throughputUnitsPerHour (c : SimulatedModel) (op : Op) :
    (c.step op).1.currentWorkUnit.throughputUnitsPerHour = match shows? (c, op) with
      | some (some now) => (((op.meterCalls c).dropLast.foldl MeterCall.apply
          c.throughputMeter).unitsPerHour now).2
      | some none => 0
      | none => c.currentWorkUnit.throughputUnitsPerHour := by
  cases op with
  | startProduction =>
      simp only [step, startProduction, simulateProductionCycle, andThen_fst, shows?]
      split <;> rfl
  | tickSimulation draws now =>
      simp only [step, tickSimulation, andThen_fst, notifyQualityChanges_keys, Op.meterCalls,
        shows?]
      split <;> rfl
  | loadProduct product recipe =>
      simp only [step, loadProduct, andThen_fst, notifyQualityChanges_keys, shows?]
  | initializeDemoData =>
      simp only [step, initializeDemoData, andThen_fst, notifyQualityChanges_keys, dispatch_fst,
        shows?]
  | setEquipmentEnabled id enabled =>
      exact (congrArg (·.currentWorkUnit.throughputUnitsPerHour)
        (c.changeEquipment_keeps id _)).trans rfl
  | setEquipmentSupplyLevel id level =>
      exact (congrArg (·.currentWorkUnit.throughputUnitsPerHour)
        (c.changeEquipment_keeps id _)).trans rfl
  | setQualityPassRate id rate =>
      exact (congrArg (·.currentWorkUnit.throughputUnitsPerHour)
        (c.setQualityPassRate_keeps id rate)).trans rfl
  | republishAll =>
      exact (congrArg (·.currentWorkUnit.throughputUnitsPerHour) c.republishAll_keeps).trans rfl
  | _ => rfl

@[simp] theorem workUnit_dispatch (c : SimulatedModel) (r : SystemStateMachine × List SystemState)
    (workUnit : WorkUnit) : .workUnit workUnit ∉ (c.dispatch r).2 := by
  simp [dispatch, notifyStateChange]

@[simp] theorem workUnit_equipment (c : SimulatedModel) (id : Nat) (workUnit : WorkUnit) :
    .workUnit workUnit ∉ c.notifyEquipmentChange id := by
  simp [notifyEquipmentChange]

@[simp] theorem workUnit_actuator (c : SimulatedModel) (id : Nat) (workUnit : WorkUnit) :
    .workUnit workUnit ∉ c.notifyActuatorChange id := by
  simp [notifyActuatorChange]

@[simp] theorem workUnit_quality (c : SimulatedModel) (id : Nat) (workUnit : WorkUnit) :
    .workUnit workUnit ∉ (c.notifyQualityChange id).2 := by
  simp [notifyQualityChange]

@[simp] theorem workUnit_changeEquipment (c : SimulatedModel) (id : Nat)
    (f : EquipmentStatus → EquipmentStatus) (workUnit : WorkUnit) :
    .workUnit workUnit ∉ (c.changeEquipment id f).2 := by
  rw [changeEquipment]
  split <;> simp

/-- Observers are told of the work unit as the operation leaves it. -/
theorem eq_of_workUnit_notified {c : SimulatedModel} {op : Op} {workUnit : WorkUnit}
    (h : .workUnit workUnit ∈ (c.step op).2) : workUnit = (c.step op).1.currentWorkUnit := by
  cases op with
  | startProduction =>
      rw [step, startProduction, andThen_snd, List.mem_append] at h
      rw [step, startProduction, andThen_fst]
      have hcycle := h.resolve_left (workUnit_dispatch c _ _)
      rw [simulateProductionCycle] at hcycle ⊢
      split at hcycle
      next hleft =>
        rw [if_pos hleft]
        simpa [notifyWorkUnitChange] using hcycle
      next => cases hcycle
  | stopProduction => exact absurd h (workUnit_dispatch c _ _)
  | startCalibration => exact absurd h (workUnit_dispatch c _ _)
  | triggerFault reason => exact absurd h (workUnit_dispatch c _ _)
  | resetSystem =>
      rw [step, resetSystem, andThen_snd, List.mem_append] at h
      exact Notification.workUnit.inj
        (List.mem_singleton.mp (h.resolve_left (workUnit_dispatch c _ _)))
  | setEquipmentEnabled id enabled => exact absurd h (workUnit_changeEquipment c id _ _)
  | setEquipmentSupplyLevel id level => exact absurd h (workUnit_changeEquipment c id _ _)
  | setQualityPassRate id rate =>
      rw [step, setQualityPassRate] at h
      split at h
      · cases h
      · exact absurd h (workUnit_quality _ id _)
  | loadProduct product recipe =>
      simpa [step, loadProduct, notifyWorkUnitChange] using h
  | tickSimulation draws now =>
      simpa [step, tickSimulation, notifyWorkUnitChange] using h
  | republishAll =>
      simpa [step, republishAll, notifyWorkUnitChange, notifyStateChange] using h
  | notifyQualityChange id => exact absurd h (workUnit_quality c id _)
  | notifyWorkUnitChange => simpa [step, notifyWorkUnitChange] using h
  | initializeDemoData =>
      simpa [step, initializeDemoData, notifyWorkUnitChange, notifyStateChange] using h

/-! ## Runs -/

theorem lastSaid_steps_concat (run : List Op) (op : Op) :
    lastSaid shows? (({} : SimulatedModel).steps (run ++ [op])) =
      (shows? (({} : SimulatedModel).after run, op)).or
        (lastSaid shows? (({} : SimulatedModel).steps run)) := by
  rw [steps_concat, lastSaid_concat]

/-- Where an operation shows nothing, it neither starts afresh nor rolls over. -/
theorem rolloversSinceRestart_of_shows {run : List Op} {op : Op}
    (h : shows? (({} : SimulatedModel).after run, op) = none) :
    rolloversSinceRestart {} (run ++ [op]) = rolloversSinceRestart {} run := by
  have hquiet : op.restarts = false ∧ rollover? (({} : SimulatedModel).after run, op) = none := by
    cases op with
    | resetSystem => cases h
    | loadProduct product recipe => cases h
    | tickSimulation draws now => cases h
    | _ => exact ⟨rfl, rfl⟩
  rw [rolloversSinceRestart, steps_concat, sinceLast_concat,
    if_neg (by simp [hquiet.1]), List.filterMap_append, List.filterMap_cons_none hquiet.2]
  exact List.append_nil _

/-- A tick measures the rate of what the meter keeps after it. -/
theorem rate_tick {run : List Op} {draws : Draws} {now : ℤ}
    (hrun : ∀ op ∈ run ++ [Op.tickSimulation draws now], op.RecipeCounts)
    (hclock : ClockForward (run ++ [.tickSimulation draws now])) :
    (((Op.tickSimulation draws now).meterCalls (({} : SimulatedModel).after run)).dropLast.foldl
      MeterCall.apply (({} : SimulatedModel).after run).throughputMeter |>.unitsPerHour now).2 =
        hourlyRate ((rolloversSinceRestart {} (run ++ [.tickSimulation draws now])).filter
          (cutoff now ≤ ·)) := by
  have hkept := completions_after hrun hclock
  rw [lastLook_tick, after_concat, step_throughputMeter] at hkept
  obtain ⟨earlier, hearlier⟩ := meterCalls_tick (({} : SimulatedModel).after run) draws now
  rw [hearlier, List.foldl_append, List.foldl_cons, List.foldl_nil, MeterCall.apply,
    apply_unitsPerHour] at hkept
  rw [hearlier, List.dropLast_concat, unitsPerHour_eq, hkept]
  · rfl
  · rw [hkept]
    exact (pairwise_rollovers hrun hclock).filter _

theorem shown_after {run : List Op} (hrun : ∀ op ∈ run, op.RecipeCounts)
    (hclock : ClockForward run) :
    (({} : SimulatedModel).after run).currentWorkUnit.throughputUnitsPerHour =
      shownRate run := by
  induction run using List.reverseRecOn with
  | nil => rfl
  | append_singleton run op ih =>
      have hearlier := ih (List.forall_mem_append.mp hrun).1 <| by
        rw [ClockForward, List.filterMap_append] at hclock
        exact (List.pairwise_append.mp hclock).1
      rw [after_concat, step_throughputUnitsPerHour, shownRate, lastSaid_steps_concat]
      cases hshows : shows? (({} : SimulatedModel).after run, op) with
      | none =>
          rw [rolloversSinceRestart_of_shows hshows]
          exact hearlier
      | some shown =>
          cases shown with
          | none => rfl
          | some now =>
              cases op with
              | tickSimulation draws now' =>
                  obtain rfl : now' = now := by simpa [shows?] using hshows
                  exact rate_tick hrun hclock
              | _ => simp [shows?] at hshows

theorem shownRate_nonneg {run : List Op} (hrun : ∀ op ∈ run, op.RecipeCounts)
    (hclock : ClockForward run) : 0 ≤ shownRate run := by
  rw [shownRate]
  split
  · exact hourlyRate_nonneg ((pairwise_rollovers hrun hclock).filter _)
  · exact le_rfl

/-! ## The law -/

/-- Every run on a clock that never goes back obeys the law. -/
theorem throughput_law (run : List Op) (hrun : ∀ op ∈ run, op.RecipeCounts)
    (hclock : ClockForward run) : ThroughputLaw run where
  shown := shown_after hrun hclock
  told := by
    rintro before op later rfl workUnit htold
    have hinitial : before ++ op :: later = (before ++ [op]) ++ later := by simp
    rw [hinitial] at hrun hclock
    rw [eq_of_workUnit_notified htold, ← after_concat]
    refine shown_after (List.forall_mem_append.mp hrun).1 ?_
    rw [ClockForward, List.filterMap_append] at hclock
    exact (List.pairwise_append.mp hclock).1
  kept := (completions_after hrun hclock).symm ▸ List.filter_sublist
  nonneg := shownRate_nonneg hrun hclock

/-- Two rollovers a minute apart. -/
def secondRollover : List Op :=
  let draws : Draws := ⟨fun _ => 1 / 8, fun _ => 2, fun _ => by norm_num [kQualityRateJitter],
    fun _ => by norm_num [kMinUnitsPerTick, kMaxUnitsPerTick]⟩
  [.loadProduct ⟨"TAB-200", "Tablet"⟩ ⟨0, []⟩, .tickSimulation draws 0,
    .tickSimulation draws (60 * 10 ^ 9)]

theorem throughput_law_twice :
    ThroughputLaw secondRollover ∧ shownRate secondRollover = 60 := by
  have hclock : ClockForward secondRollover :=
    show List.Pairwise (· ≤ ·) [0, 60 * 10 ^ 9] by simp
  refine ⟨throughput_law _ (by simp [secondRollover, Op.RecipeCounts]) hclock, ?_⟩
  have hrollovers : rolloversSinceRestart {} secondRollover = [0, 60 * 10 ^ 9] := by decide +kernel
  have hlast : lastSaid shows? (({} : SimulatedModel).steps secondRollover) =
      some (some (60 * 10 ^ 9)) := rfl
  rw [shownRate, hrollovers, hlast]
  norm_num [hourlyRate, cutoff]

end SimulatedModel

end Production
