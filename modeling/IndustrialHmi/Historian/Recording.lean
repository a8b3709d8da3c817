import IndustrialHmi.Historian.HistorianBridge
import IndustrialHmi.Historian.NewestRows
import IndustrialHmi.Integration.ProductionMetrics
import IndustrialHmi.Theory.Runs

/-!
# The recording of the model

The bridge observes the model and makes records of what it is called with, a batch of them goes to
the archive now and then, and the maintenance takes old rows out of the raw table.  A record whose
value is not a number is refused there, without a retry.

The calls of an operation come one after the other, with flushes and sweeps in between.  Whatever
their order, what is recorded of the last hour is what a query of it answers, and the newest record
of a series is what the model holds (`recording_law`).
-/

namespace Historian

open Production

/-! ## What is recorded -/

/-- The state as a number. -/
def stateNumber : SystemState → ℤ
  | .IDLE => 0
  | .RUNNING => 1
  | .ERROR => 2
  | .CALIBRATION => 3

namespace HistorianBridge

/-- The records of a call at a time, with the model as the call finds it. -/
def wire (model : SimulatedModel) (nowMs : ℤ) : Notification → List (HistoryRecord Binary32)
  | .quality qc => [⟨nowMs, .QualityPassRate, .ofNat 32 qc.checkpointId, qc.passRate⟩]
  | .equipment es =>
      [⟨nowMs, .EquipmentSupplyLevel, .ofNat 32 es.equipmentId, .ofInt es.supplyLevel⟩]
  | .systemState s => [⟨nowMs, .SystemState, 0, .ofInt (stateNumber s)⟩]
  | .workUnit wu =>
      [⟨nowMs, .Throughput, 0, .round wu.throughputUnitsPerHour⟩,
        ⟨nowMs, .OeePercent, 0, model.oeeSnapshot.oeePct⟩]
  | .actuator _ => []

end HistorianBridge

/-- The model as the observers find it who are called in an operation.  They are called with the
work unit before the line that starts has its new status. -/
def found (model : SimulatedModel) : SimulatedModel.Op → SimulatedModel
  | .startProduction =>
      { model.startProduction.1 with equipmentStatuses := model.equipmentStatuses }
  | op => (model.step op).1

/-- What is not a number is bound as `NULL`, which the column does not take; no other statement
fails. -/
def refusals (records : List (HistoryRecord Binary32)) : Statement → Bool
  | .stepInsert position => records[position]?.any fun r => r.value = .nan
  | _ => false

/-- The clocks as one call reads them: the time, and for each of its records the steady clock
before and after a batch may be written. -/
structure Reading where
  nowMs : ℤ
  steady : Nat → ℤ × ℤ

structure Recorder where
  model : SimulatedModel := {}
  /-- The calls that the last operation still makes. -/
  calls : List (SimulatedModel × Notification) := []
  bridge : HistorianBridge Binary32
  db : Database Binary32 := {}

namespace Recorder

/-- The bridge with the archive as its writer.  Its buffer is empty after a record only if a batch
has been written. -/
def enqueue (s : Recorder) (record : HistoryRecord Binary32) (steady : ℤ × ℤ) : Recorder :=
  let batch := s.bridge.pending ++ [record]
  let (db, accepted) := s.db.write batch (refusals batch)
  let bridge := s.bridge.enqueue record steady.1 accepted steady.2
  { s with bridge := bridge, db := if bridge.pending.isEmpty then db else s.db }

def flush (s : Recorder) (now : ℤ) : Recorder :=
  let (db, accepted) := s.db.write s.bridge.pending (refusals s.bridge.pending)
  { s with bridge := s.bridge.flush accepted now, db := db }

inductive Event where
  | operation (op : SimulatedModel.Op)
  | call (reading : Reading)
  | flush (now : ℤ)
  | sweep (now : ℤ)

variable (avg : List Binary32 → Binary32) (config : Config)

/-- An operation begins when the calls of the one before it are over. -/
def step (s : Recorder) : Event → Recorder
  | .operation op =>
      if s.calls.isEmpty then
        { s with
          model := (s.model.step op).1
          calls := (s.model.step op).2.map fun sent => (found s.model op, sent) }
      else s
  | .call reading =>
      match s.calls with
      | [] => s
      | (model, sent) :: calls =>
          (HistorianBridge.wire model reading.nowMs sent).zipIdx.foldl
            (fun s r => s.enqueue r.1 (reading.steady r.2)) { s with calls := calls }
  | .flush now => s.flush now
  | .sweep now =>
      { s with db := runOnce avg config s.db now (fun _ => false) fun _ => false }

def start (bridgeConfig : HistorianBridge.Config) (epoch : ℤ) : Recorder :=
  { bridge := { config := bridgeConfig, batchEpoch := epoch } }

/-- A run of the recorder, whose bridge is made at a reading of the steady clock. -/
def after (bridgeConfig : HistorianBridge.Config) (epoch : ℤ) (run : List Event) : Recorder :=
  run.foldl (step avg config) (start bridgeConfig epoch)

/-! ### What came about -/

/-- The operation that an event begins. -/
def begun (s : Recorder) : Event → List SimulatedModel.Op
  | .operation op => if s.calls.isEmpty then [op] else []
  | _ => []

/-- The observers' call that an event makes. -/
def made (s : Recorder) : Event → List (SimulatedModel × Notification)
  | .call _ => s.calls.take 1
  | _ => []

/-- The records that an event makes. -/
def records (s : Recorder) : Event → List (HistoryRecord Binary32)
  | .call reading =>
      (s.calls.take 1).flatMap fun call => HistorianBridge.wire call.1 reading.nowMs call.2
  | _ => []

variable (bridgeConfig : HistorianBridge.Config) (epoch : ℤ)

/-- The steps of a run, each with the recorder that it finds. -/
abbrev steps (run : List Event) : List (Recorder × Event) :=
  Runs.trace (step avg config) (start bridgeConfig epoch) run

/-- The operations of a run. -/
def operations (run : List Event) : List SimulatedModel.Op :=
  (steps avg config bridgeConfig epoch run).flatMap fun e => begun e.1 e.2

/-- The records of a run. -/
def recorded (run : List Event) : List (HistoryRecord Binary32) :=
  (steps avg config bridgeConfig epoch run).flatMap fun e => records e.1 e.2

end Recorder

/-! ## What the archive takes -/

def numbers (records : List (HistoryRecord Binary32)) : List (HistoryRecord Binary32) :=
  records.filter fun r => r.value ≠ .nan

theorem numbers_append (records more : List (HistoryRecord Binary32)) :
    numbers (records ++ more) = numbers records ++ numbers more := List.filter_append ..

/-- The records that are not refused are the numbers. -/
theorem filter_refusals (records : List (HistoryRecord Binary32)) :
    ((records.zipIdx.filter fun r => !refusals records (.stepInsert r.2)).map fun r => r.1.row) =
      (numbers records).map HistoryRecord.row := by
  have hvalue : ∀ r ∈ records.zipIdx,
      (!refusals records (.stepInsert r.2)) = decide (r.1.value ≠ .nan) := by
    intro r hr
    simp [refusals, List.mem_zipIdx_iff_getElem?.mp hr]
  rw [List.filter_congr hvalue]
  calc (records.zipIdx.filter fun r => decide (r.1.value ≠ .nan)).map (fun r => r.1.row)
      = ((records.zipIdx.filter fun r => decide (r.1.value ≠ .nan)).map Prod.fst).map
          HistoryRecord.row := by rw [List.map_map]; rfl
    _ = ((records.zipIdx.map Prod.fst).filter fun r => decide (r.value ≠ .nan)).map
          HistoryRecord.row := by rw [List.filter_map]; rfl
    _ = (numbers records).map HistoryRecord.row := by rw [List.zipIdx_map_fst]; rfl

/-- A batch is appended to the raw table, what is not a number apart. -/
theorem write_refusals {db : Database Binary32} (h : db.saved = none)
    (records : List (HistoryRecord Binary32)) :
    (db.write records (refusals records)).1.saved = none ∧
      (db.write records (refusals records)).1.tables .Raw =
        db.tables .Raw ++ (numbers records).map HistoryRecord.row := by
  cases records with
  | nil => exact ⟨h, (List.append_nil _).symm⟩
  | cons r records =>
      have hbegin : refusals (r :: records) .beginImmediate = false := rfl
      have hprepare : refusals (r :: records) .prepareInsert = false := rfl
      have hcommit : refusals (r :: records) .commit = false := rfl
      have hopen : db.beginImmediate (refusals (r :: records)) =
          some { db with saved := some db.tables } := by
        simp [Database.beginImmediate, h, hbegin]
      simp only [Database.write, List.isEmpty_cons, Bool.false_eq_true, if_false, hopen, hprepare,
        Database.commit, hcommit, filter_refusals, Function.update_self, and_self]

namespace Recorder

variable {s : Recorder}

/-- What is in the raw table or on the way to it. -/
def held (s : Recorder) : List (Row Binary32) :=
  s.db.tables .Raw ++ (numbers s.bridge.pending).map HistoryRecord.row

theorem pending_enqueue (b : HistorianBridge Binary32) (record : HistoryRecord Binary32)
    (now : ℤ) (accepted : Nat) (later : ℤ) :
    (b.enqueue record now accepted later).pending = [] ∨
      (b.enqueue record now accepted later).pending = b.pending ++ [record] := by
  rw [HistorianBridge.enqueue]
  split
  next => exact .inl (HistorianBridge.pending_flushLocked _ _ _)
  next => exact .inr rfl

theorem saved_enqueue (hs : s.db.saved = none) (record : HistoryRecord Binary32) (steady : ℤ × ℤ) :
    (s.enqueue record steady).db.saved = none := by
  simp only [enqueue]
  split
  next => exact (write_refusals hs _).1
  next => exact hs

/-- A record is held from then on, if it is a number. -/
theorem held_enqueue (hs : s.db.saved = none) (record : HistoryRecord Binary32)
    (steady : ℤ × ℤ) :
    (s.enqueue record steady).held = s.held ++ (numbers [record]).map HistoryRecord.row := by
  have hall : (numbers (s.bridge.pending ++ [record])).map HistoryRecord.row =
      (numbers s.bridge.pending).map HistoryRecord.row ++
        (numbers [record]).map HistoryRecord.row := by
    rw [numbers_append, List.map_append]
  simp only [held, enqueue]
  rcases pending_enqueue s.bridge record steady.1
    (s.db.write (s.bridge.pending ++ [record]) (refusals (s.bridge.pending ++ [record]))).2
    steady.2 with hwritten | hkept
  · rw [hwritten, List.isEmpty_nil, if_pos rfl, (write_refusals hs _).2, hall]
    simp [numbers]
  · have hsome : (s.bridge.pending ++ [record]).isEmpty = false := by simp
    rw [hkept, hsome, if_neg Bool.false_ne_true, hall, List.append_assoc]

theorem flush_eq (hs : s.db.saved = none) (now : ℤ) :
    (s.flush now).db.saved = none ∧ (s.flush now).bridge.pending = [] ∧
      (s.flush now).held = s.held := by
  have hpending : (s.flush now).bridge.pending = [] := HistorianBridge.pending_flushLocked _ _ _
  refine ⟨(write_refusals hs _).1, hpending, ?_⟩
  rw [held, hpending, flush, (write_refusals hs _).2, held]
  simp [numbers]

/-- What is young enough survives a sweep. -/
theorem sweep_eq (avg : List Binary32 → Binary32) (config : Config) {db : Database Binary32}
    (hdb : db.saved = none) (now : ℤ) :
    (runOnce avg config db now (fun _ => false) fun _ => false).saved = none ∧
      (runOnce avg config db now (fun _ => false) fun _ => false).tables .Raw =
        (db.tables .Raw).filter fun r => !decide (r.ts < now - config.rawRetention) := by
  set swept := (db.demoteOlderThan avg .Raw .Minute (now - config.rawRetention) kMinuteBucketMs
    fun _ => false).1 with hswept
  have hclosed : swept.saved = none :=
    Database.saved_demoteOlderThan_succeeding avg hdb _ _ _ _
  have hraw := Database.demoted_demoteRaw avg config (Database.inserts_succeeding hdb) now
  have hminute := Database.demoted_demoteMinute avg config (Database.inserts_succeeding hclosed) now
  refine ⟨Database.saved_demoteOlderThan_succeeding avg hclosed _ _ _ _, ?_⟩
  exact (hminute.other .Raw (by decide) (by decide)).trans hraw.remaining

/-! ## One event -/

variable (avg : List Binary32 → Binary32) (config : Config)

theorem enqueue_all (hs : s.db.saved = none) (steady : Nat → ℤ × ℤ)
    (records : List (HistoryRecord Binary32 × Nat)) :
    let s' := records.foldl (fun s r => s.enqueue r.1 (steady r.2)) s
    s'.db.saved = none ∧ s'.model = s.model ∧ s'.calls = s.calls ∧
      s'.held = s.held ++ (numbers (records.map Prod.fst)).map HistoryRecord.row := by
  induction records generalizing s with
  | nil => exact ⟨hs, rfl, rfl, (List.append_nil _).symm⟩
  | cons r records ih =>
      obtain ⟨hsaved, hmodel, hcalls, hheld⟩ := ih (saved_enqueue hs r.1 (steady r.2))
      refine ⟨hsaved, hmodel, hcalls, hheld.trans ?_⟩
      rw [held_enqueue hs, List.append_assoc, ← List.map_append, ← numbers_append]
      rfl

/-- The call at the front is made, and its records are held. -/
theorem step_call (hs : s.db.saved = none) (reading : Reading) :
    (s.step avg config (.call reading)).db.saved = none ∧
      (s.step avg config (.call reading)).model = s.model ∧
      (s.step avg config (.call reading)).calls = s.calls.drop 1 ∧
      (s.step avg config (.call reading)).held =
        s.held ++ (numbers (s.records (.call reading))).map HistoryRecord.row := by
  cases hcalls : s.calls with
  | nil =>
      simpa [step, records, hcalls, numbers] using hs
  | cons call calls =>
      have hclosed : { s with calls := calls }.db.saved = none := hs
      obtain ⟨hsaved, hmodel, hleft, hheld⟩ := enqueue_all hclosed reading.steady
        (HistorianBridge.wire call.1 reading.nowMs call.2).zipIdx
      rw [List.zipIdx_map_fst] at hheld
      simp only [step, records, hcalls]
      refine ⟨hsaved, hmodel, hleft, hheld.trans ?_⟩
      simp [held]

theorem saved_step (hs : s.db.saved = none) (e : Event) :
    (s.step avg config e).db.saved = none := by
  cases e with
  | operation op =>
      rw [step]
      split <;> exact hs
  | call reading => exact (step_call avg config hs reading).1
  | flush now => exact (flush_eq hs now).1
  | sweep now => exact (sweep_eq avg config hs now).1

/-- The rows from a time on. -/
def young (time : ℤ) (rows : List (Row Binary32)) : List (Row Binary32) :=
  rows.filter fun r => time ≤ r.ts

theorem young_append (time : ℤ) (rows more : List (Row Binary32)) :
    young time (rows ++ more) = young time rows ++ young time more := List.filter_append ..

/-- Of what is young, an event takes away nothing and adds its records. -/
theorem held_step (hs : s.db.saved = none) {time : ℤ} {e : Event}
    (htime : ∀ now, e = .sweep now → now - config.rawRetention ≤ time) :
    young time (s.step avg config e).held =
      young time s.held ++ young time ((numbers (s.records e)).map HistoryRecord.row) := by
  cases e with
  | operation op =>
      have hsame : (s.step avg config (.operation op)).held = s.held := by
        rw [step]
        split <;> rfl
      rw [hsame]
      exact (List.append_nil _).symm
  | call reading => rw [(step_call avg config hs reading).2.2.2, young_append]
  | flush now =>
      rw [show s.step avg config (.flush now) = s.flush now from rfl, (flush_eq hs now).2.2]
      exact (List.append_nil _).symm
  | sweep now =>
      have hyoung : ∀ r ∈ s.db.tables .Raw,
          (!decide (r.ts < now - config.rawRetention) && decide (time ≤ r.ts)) =
            decide (time ≤ r.ts) := by
        intro r _
        have := htime now rfl
        by_cases hr : time ≤ r.ts
        · have hkept : ¬ r.ts < now - config.rawRetention := by omega
          simp [hr, hkept]
        · simp [hr]
      have hrest : young time ((numbers (s.records (.sweep now))).map HistoryRecord.row) = [] := rfl
      rw [hrest, List.append_nil]
      simp only [step, held, young_append, (sweep_eq avg config hs now).2]
      congr 1
      rw [young, List.filter_filter, young]
      exact List.filter_congr fun r hr => (Bool.and_comm _ _).trans (hyoung r hr)

/-! ## Runs -/

variable (bridgeConfig : HistorianBridge.Config) (epoch : ℤ)

theorem after_concat (run : List Event) (e : Event) :
    after avg config bridgeConfig epoch (run ++ [e]) =
      (after avg config bridgeConfig epoch run).step avg config e := List.foldl_concat ..

theorem operations_concat (run : List Event) (e : Event) :
    operations avg config bridgeConfig epoch (run ++ [e]) =
      operations avg config bridgeConfig epoch run ++
        begun (after avg config bridgeConfig epoch run) e := by
  rw [operations, steps, Runs.trace_concat, List.flatMap_append, List.flatMap_singleton]
  rfl

theorem recorded_concat (run : List Event) (e : Event) :
    recorded avg config bridgeConfig epoch (run ++ [e]) =
      recorded avg config bridgeConfig epoch run ++
        records (after avg config bridgeConfig epoch run) e := by
  rw [recorded, steps, Runs.trace_concat, List.flatMap_append, List.flatMap_singleton]
  rfl

theorem saved_after (run : List Event) :
    (after avg config bridgeConfig epoch run).db.saved = none :=
  Runs.invariant (I := fun s : Recorder => s.db.saved = none) rfl
    (fun _ e hs => saved_step avg config hs e) run

/-- No sweep of a run has come near a time. -/
def Spared (config : Config) (time : ℤ) (run : List Event) : Prop :=
  ∀ now, .sweep now ∈ run → now - config.rawRetention ≤ time

/-- What is young is in the raw table or on the way to it, in the order in which it was recorded. -/
theorem held_after {run : List Event} {time : ℤ} (htime : Spared config time run) :
    young time (after avg config bridgeConfig epoch run).held =
      young time
        ((numbers (recorded avg config bridgeConfig epoch run)).map HistoryRecord.row) := by
  induction run using List.reverseRecOn with
  | nil => rfl
  | append_singleton run e ih =>
      have hbefore : Spared config time run := fun now h => htime now (List.mem_append_left _ h)
      have hlast : ∀ now, e = .sweep now → now - config.rawRetention ≤ time :=
        fun now h => htime now (by simp [h])
      rw [after_concat, recorded_concat, numbers_append, List.map_append, young_append,
        held_step avg config (saved_after avg config bridgeConfig epoch run) hlast, ih hbefore]

/-! ## Answers -/

theorem matching_young (rows : List (Row Binary32)) (field : FieldKind) (entityId : BitVec 32)
    (range : QueryRange) :
    matching (young range.fromMs rows) field entityId range =
      matching rows field entityId range := by
  rw [matching, young, List.filter_filter, matching]
  refine List.filter_congr fun r _ => ?_
  by_cases hfrom : range.fromMs ≤ r.ts
  · simp [hfrom]
  · simp [hfrom]

/-- What a query of an hour at most answers with, once the buffer is written. -/
def Answers (db : Database Binary32) (records : List (HistoryRecord Binary32)) (config : Config)
    (run : List Event) : Prop :=
  ∀ (order : Sorting (newerFirst (ν := Binary32))) field entityId (range : QueryRange),
    range.toMs - range.fromMs ≤ kOneHourMs → InInt64 (range.toMs - range.fromMs) →
    range.limit < 2 ^ 63 → Spared config range.fromMs run →
    ∃ out, db.query? order field entityId range = some out ∧
      NewestRows (matching ((numbers records).map HistoryRecord.row) field entityId range)
        range.limit field entityId out

theorem answers_after {run : List Event}
    (hpending : (after avg config bridgeConfig epoch run).bridge.pending = []) :
    Answers (after avg config bridgeConfig epoch run).db
      (recorded avg config bridgeConfig epoch run) config run := by
  intro order field entityId range hhour hin hlimit hspared
  have hheld := held_after avg config bridgeConfig epoch hspared
  rw [held, hpending, show numbers [] = [] from rfl, List.map_nil, List.append_nil] at hheld
  have hraw : tierOfDuration (range.toMs - range.fromMs) = .Raw := if_pos hhour
  refine ⟨_, query?_of_in hin, ?_⟩
  rw [hraw, ← matching_young ((numbers _).map _), ← hheld, matching_young]
  exact (newestRows_select _ (by omega)).mpr (.inl hlimit)

/-! ## The newest records -/

/-- The calls of a run. -/
def delivered (run : List Event) : List Notification :=
  (steps avg config bridgeConfig epoch run).flatMap fun e => (made e.1 e.2).map Prod.snd

theorem delivered_concat (run : List Event) (e : Event) :
    delivered avg config bridgeConfig epoch (run ++ [e]) =
      delivered avg config bridgeConfig epoch run ++
        (made (after avg config bridgeConfig epoch run) e).map Prod.snd := by
  rw [delivered, steps, Runs.trace_concat, List.flatMap_append, List.flatMap_singleton]
  rfl

/-- The calls of a run are those that the model makes in its operations, one after the other. -/
structure Called (s : Recorder) (ops : List SimulatedModel.Op) (sent : List Notification) :
    Prop where
  model : s.model = ({} : SimulatedModel).after ops
  told : sent ++ s.calls.map Prod.snd = ({} : SimulatedModel).told ops

theorem Called.step {ops : List SimulatedModel.Op} {sent : List Notification}
    (h : s.Called ops sent) (hs : s.db.saved = none) (e : Event) :
    (s.step avg config e).Called (ops ++ s.begun e) (sent ++ (s.made e).map Prod.snd) := by
  cases e with
  | operation op =>
      cases hcalls : s.calls with
      | nil =>
          have htold := h.told
          rw [hcalls, List.map_nil, List.append_nil] at htold
          simp only [Recorder.step, begun, made, hcalls, List.isEmpty_nil, if_true]
          refine ⟨?_, ?_⟩
          · rw [SimulatedModel.after_concat, h.model]
          · rw [SimulatedModel.told_concat, ← htold, h.model]
            simp
      | cons call calls =>
          simp only [Recorder.step, begun, made, hcalls, List.isEmpty_cons]
          simpa using h
  | call reading =>
      obtain ⟨-, hmodel, hcalls, -⟩ := step_call avg config hs reading
      simp only [begun, made, List.append_nil]
      refine ⟨hmodel.trans h.model, ?_⟩
      rw [hcalls, ← h.told, List.append_assoc, ← List.map_append, List.take_append_drop]
  | flush now =>
      simp only [begun, made, List.map_nil, List.append_nil]
      exact ⟨h.model, h.told⟩
  | sweep now =>
      simp only [begun, made, List.map_nil, List.append_nil]
      exact ⟨h.model, h.told⟩

theorem called_after (run : List Event) :
    (after avg config bridgeConfig epoch run).Called
      (operations avg config bridgeConfig epoch run)
      (delivered avg config bridgeConfig epoch run) := by
  induction run using List.reverseRecOn with
  | nil => exact ⟨rfl, rfl⟩
  | append_singleton run e ih =>
      rw [after_concat, operations_concat, delivered_concat]
      exact ih.step avg config (saved_after avg config bridgeConfig epoch run) e

deriving instance DecidableEq for FieldKind

/-- The value of a record of the series. -/
def valueOf (field : FieldKind) (entityId : BitVec 32) (r : HistoryRecord Binary32) :
    Option Binary32 :=
  if r.field = field ∧ r.entityId = entityId then some r.value else none

/-- The newest value of a series. -/
def newest (field : FieldKind) (entityId : BitVec 32) (records : List (HistoryRecord Binary32)) :
    Option Binary32 :=
  lastSaid (valueOf field entityId) records

/-- What a call says of a series; what it says of the effectiveness depends on the model too. -/
def tells (field : FieldKind) (entityId : BitVec 32) (sent : Notification) : Option Binary32 :=
  newest field entityId (HistorianBridge.wire {} 0 sent)

theorem newest_wire {field : FieldKind} (hfield : field ≠ .OeePercent) (entityId : BitVec 32)
    (model : SimulatedModel) (nowMs : ℤ) (sent : Notification) :
    newest field entityId (HistorianBridge.wire model nowMs sent) = tells field entityId sent := by
  cases sent with
  | workUnit wu =>
      simp [tells, newest, lastSaid, HistorianBridge.wire, valueOf, List.filterMap_cons,
        hfield.symm]
  | _ => rfl

/-- The newest record of a series is of the last call that says something of it. -/
theorem newest_recorded {field : FieldKind} (hfield : field ≠ .OeePercent)
    (entityId : BitVec 32) (run : List Event) :
    newest field entityId (recorded avg config bridgeConfig epoch run) =
      lastSaid (tells field entityId) (delivered avg config bridgeConfig epoch run) := by
  induction run using List.reverseRecOn with
  | nil => rfl
  | append_singleton run e ih =>
      rw [recorded_concat, delivered_concat, newest, lastSaid_append, lastSaid_append, ← ih]
      congr 1
      cases e with
      | call reading =>
          simp only [records, made]
          cases (after avg config bridgeConfig epoch run).calls with
          | nil => rfl
          | cons call calls =>
              simp only [List.take_succ_cons, List.take_zero, List.flatMap_singleton,
                List.map_singleton]
              rw [← newest, newest_wire hfield]
              cases htells : tells field entityId call.2 with
              | none => simp [lastSaid, htells]
              | some v => simp [lastSaid, htells]
      | _ => rfl

/-! ### What the model told -/

/-- No operation of a run subscripts an entry that it should not create. -/
def Own (ops : List SimulatedModel.Op) : Prop :=
  ∀ done op, done ++ [op] <+: ops → (({} : SimulatedModel).after done).SubscriptsOwn op

theorem Own.prefix_of {ops more : List SimulatedModel.Op} (h : Own (ops ++ more)) : Own ops :=
  fun done op hdone => h done op (hdone.trans (List.prefix_append ops more))

/-- What the model tells first if it has not begun: that there is nothing to do. -/
theorem told_initial :
    ({} : SimulatedModel).republishAll.2 = [.workUnit {}, .systemState .IDLE] := rfl

theorem knownBy_initial {ops : List SimulatedModel.Op} (h : Own ops) :
    (({} : SimulatedModel).after ops).KnownBy
      ([.workUnit {}, .systemState .IDLE] ++ ({} : SimulatedModel).told ops) := by
  have hknown := SimulatedModel.knownBy_told SimulatedModel.sound_initial
    SimulatedModel.identified_initial h
  rwa [SimulatedModel.told_republishAll, told_initial] at hknown

/-- The checkpoints have the ids of the demo data. -/
theorem checkpointId_lt {ops : List SimulatedModel.Op} (h : Own ops) {id : Nat}
    (hid : id ∈ (({} : SimulatedModel).after ops).qualityCheckpoints) : id < 3 := by
  induction ops using List.reverseRecOn generalizing id with
  | nil => exact absurd hid Std.ExtTreeMap.not_mem_empty
  | append_singleton ops op ih =>
      rw [SimulatedModel.after_concat, SimulatedModel.mem_qualityCheckpoints_step] at hid
      rcases hid with hnew | hold
      · have hown := h ops op List.prefix_rfl
        cases op with
        | initializeDemoData => exact hnew
        | notifyQualityChange id' =>
            obtain rfl : id' = id := hnew
            rcases hown with rfl | hmem
            · omega
            · exact ih h.prefix_of hmem
        | _ => exact hnew.elim
      · exact ih h.prefix_of hold

theorem checkpointId_told {ops : List SimulatedModel.Op} (h : Own ops) {cp : QualityCheckpoint}
    (hcp : .quality cp ∈ ({} : SimulatedModel).told ops) : cp.checkpointId < 3 := by
  induction ops using List.reverseRecOn with
  | nil => cases hcp
  | append_singleton ops op ih =>
      rw [SimulatedModel.told_concat, List.mem_append] at hcp
      rcases hcp with hold | hnew
      · exact ih h.prefix_of hold
      · obtain ⟨k, hk⟩ := (SimulatedModel.quality_step _ op).stored hnew
        rw [← SimulatedModel.after_concat] at hk
        rw [(knownBy_initial h).identified.quality k cp hk]
        exact checkpointId_lt h
          (Std.ExtTreeMap.mem_iff_isSome_getElem?.mpr (Option.isSome_iff_exists.mpr ⟨_, hk⟩))

theorem equipmentId_told {ops : List SimulatedModel.Op} (h : Own ops) {status : EquipmentStatus}
    (hstatus : .equipment status ∈ ({} : SimulatedModel).told ops) : status.equipmentId < 4 := by
  induction ops using List.reverseRecOn with
  | nil => cases hstatus
  | append_singleton ops op ih =>
      rw [SimulatedModel.told_concat, List.mem_append] at hstatus
      rcases hstatus with hold | hnew
      · exact ih h.prefix_of hold
      · obtain ⟨k, hk⟩ := (SimulatedModel.equipment_step _ op).stored hnew
        rw [← SimulatedModel.after_concat] at hk
        rw [(knownBy_initial h).identified.equipment k status hk]
        exact Ingest.inRange_after Ingest.inRange_initial (ops ++ [op]) k
          (Std.ExtTreeMap.mem_iff_isSome_getElem?.mpr (Option.isSome_iff_exists.mpr ⟨_, hk⟩))

/-- The newest record of each series is of what the model holds. -/
structure Current (model : SimulatedModel) (records : List (HistoryRecord Binary32)) : Prop where
  quality : ∀ id : BitVec 32, newest .QualityPassRate id records =
    (model.qualityCheckpoints.entry id.toNat).map QualityCheckpoint.passRate
  supply : ∀ id : BitVec 32, newest .EquipmentSupplyLevel id records =
    (model.equipmentStatuses.entry id.toNat).map fun es => .ofInt es.supplyLevel
  /-- Without a record of it, the state is the first one. -/
  state : (newest .SystemState 0 records).getD (.ofInt (stateNumber .IDLE)) =
    .ofInt (stateNumber model.stateMachine.state)
  throughput : (newest .Throughput 0 records).getD (.round 0) =
    .round model.currentWorkUnit.throughputUnitsPerHour

theorem ofNat_eq_iff {n : Nat} (hn : n < 2 ^ 32) (id : BitVec 32) :
    BitVec.ofNat 32 n = id ↔ n = id.toNat := by
  rw [← BitVec.toNat_inj, BitVec.toNat_ofNat, Nat.mod_eq_of_lt hn]

theorem tells_quality (id : BitVec 32) (sent : Notification) : tells .QualityPassRate id sent =
    sent.quality?.bind fun qc =>
      if BitVec.ofNat 32 qc.checkpointId = id then some qc.passRate else none := by
  cases sent with
  | quality qc =>
      rw [tells, newest, HistorianBridge.wire, lastSaid_singleton]
      simp [valueOf, Notification.quality?]
  | _ => rfl

theorem tells_supply (id : BitVec 32) (sent : Notification) : tells .EquipmentSupplyLevel id sent =
    sent.equipment?.bind fun es =>
      if BitVec.ofNat 32 es.equipmentId = id then some (.ofInt es.supplyLevel) else none := by
  cases sent with
  | equipment es =>
      rw [tells, newest, HistorianBridge.wire, lastSaid_singleton]
      simp [valueOf, Notification.equipment?]
  | _ => rfl

theorem tells_state (sent : Notification) : tells .SystemState 0 sent =
    sent.systemState?.map fun s => .ofInt (stateNumber s) := by
  cases sent <;> rfl

theorem tells_throughput (sent : Notification) : tells .Throughput 0 sent =
    sent.workUnit?.map fun wu => .round wu.throughputUnitsPerHour := by
  cases sent <;> rfl

/-- What calls say of a series is what they say of the entry under its id. -/
theorem lastSaid_tells {ν : Type} {value? : Notification → Option ν} {idOf : ν → Nat}
    {value : ν → Binary32} {field : FieldKind} {store : Nat → Option ν} {sent : List Notification}
    (hknown : Reporting.Known value? idOf store
      ([.workUnit {}, .systemState .IDLE] ++ sent))
    (hinitial : ∀ report ∈ ([.workUnit {}, .systemState .IDLE] : List Notification),
      value? report = none)
    (htells : ∀ report ∈ sent, ∀ id, tells field id report =
      (value? report).bind fun v => if BitVec.ofNat 32 (idOf v) = id then some (value v) else none)
    (hsmall : ∀ report ∈ sent, ∀ v, value? report = some v → idOf v < 2 ^ 32) (id : BitVec 32) :
    lastSaid (tells field id) sent = (store id.toNat).map value := by
  have hsame : ∀ report ∈ sent, tells field id report =
      (Reporting.about value? idOf id.toNat report).map value := by
    intro report hreport
    rw [htells report hreport id]
    cases hvalue : value? report with
    | none => rw [Reporting.about_of_none hvalue]; rfl
    | some v =>
        rw [Reporting.about_of_some hvalue, Option.bind_some, apply_ite (Option.map value)]
        simp only [ofNat_eq_iff (hsmall report hreport v hvalue) id, Option.map_some,
          Option.map_none]
  have hquiet : lastSaid (Reporting.about value? idOf id.toNat)
      ([.workUnit {}, .systemState .IDLE] : List Notification) = none := by
    simp [lastSaid, Reporting.about_of_none (hinitial _ _)]
  rw [lastSaid_congr hsame, lastSaid_map, ← hknown id.toNat, lastSaid_append, hquiet,
    Option.or_none]

theorem current_of_told {ops : List SimulatedModel.Op} (h : Own ops)
    {records : List (HistoryRecord Binary32)}
    (hrecords : ∀ field, field ≠ .OeePercent → ∀ entityId, newest field entityId records =
      lastSaid (tells field entityId) (({} : SimulatedModel).told ops)) :
    Current (({} : SimulatedModel).after ops) records := by
  have hknown := knownBy_initial h
  refine ⟨fun id => ?_, fun id => ?_, ?_, ?_⟩
  · rw [hrecords _ (by simp)]
    refine lastSaid_tells hknown.quality (by simp [Notification.quality?])
      (fun report _ id => tells_quality id report) (fun report hreport cp hcp => ?_) id
    have hsmall := checkpointId_told h (Notification.quality?_eq_some.mp hcp ▸ hreport)
    omega
  · rw [hrecords _ (by simp)]
    refine lastSaid_tells hknown.equipment (by simp [Notification.equipment?])
      (fun report _ id => tells_supply id report) (fun report hreport es hes => ?_) id
    have hsmall := equipmentId_told h (Notification.equipment?_eq_some.mp hes ▸ hreport)
    omega
  · have hstate := hknown.systemState
    rw [lastSaid_append] at hstate
    rw [hrecords _ (by simp), lastSaid_congr fun report _ => tells_state report, lastSaid_map]
    cases htold : lastSaid Notification.systemState? (({} : SimulatedModel).told ops) with
    | none =>
        rw [htold] at hstate
        rw [← Option.some.inj hstate]
        rfl
    | some state =>
        rw [htold] at hstate
        rw [← Option.some.inj hstate]
        rfl
  · have hunit := hknown.workUnit
    rw [lastSaid_append] at hunit
    rw [hrecords _ (by simp), lastSaid_congr fun report _ => tells_throughput report, lastSaid_map]
    cases htold : lastSaid Notification.workUnit? (({} : SimulatedModel).told ops) with
    | none =>
        rw [htold] at hunit
        rw [← Option.some.inj hunit]
        rfl
    | some unit =>
        rw [htold] at hunit
        rw [← Option.some.inj hunit]
        rfl

/-! ## The law -/

/-- What holds after a run. -/
structure Recorded (run : List Event) : Prop where
  /-- What no sweep has come near is in the raw table or on the way to it, in the order in which it
  was recorded, but for what is not a number. -/
  archived : ∀ time, Spared config time run →
    young time (after avg config bridgeConfig epoch run).held =
      young time ((numbers (recorded avg config bridgeConfig epoch run)).map HistoryRecord.row)
  /-- When the buffer is written, a query of an hour answers with what was recorded in it. -/
  answers : (after avg config bridgeConfig epoch run).bridge.pending = [] →
    Answers (after avg config bridgeConfig epoch run).db
      (recorded avg config bridgeConfig epoch run) config run
  /-- When the calls are made, the newest record of each series is of what the model holds. -/
  current : (after avg config bridgeConfig epoch run).calls = [] →
    Own (operations avg config bridgeConfig epoch run) →
    Current (after avg config bridgeConfig epoch run).model
      (recorded avg config bridgeConfig epoch run)

/-- In every run of operations, calls, flushes and sweeps: what is recorded of the model is what the
archive holds and answers, and the newest of it is what the model holds. -/
theorem recording_law (run : List Event) : Recorded avg config bridgeConfig epoch run where
  archived _ htime := held_after avg config bridgeConfig epoch htime
  answers hpending := answers_after avg config bridgeConfig epoch hpending
  current hcalls hown := by
    have hcalled := called_after avg config bridgeConfig epoch run
    have htold := hcalled.told
    rw [hcalls, List.map_nil, List.append_nil] at htold
    rw [hcalled.model]
    refine current_of_told hown fun field hfield entityId => ?_
    rw [newest_recorded avg config bridgeConfig epoch hfield, htold]

end Recorder

end Historian
