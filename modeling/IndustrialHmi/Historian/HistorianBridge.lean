import Mathlib.Data.List.Induction
import IndustrialHmi.Historian.HistoryStore

/-!
# The batches of the historian bridge

Records are collected under a mutex and handed to the writer in batches, when a batch is full or
old, on an explicit flush and at the end.  The clock may read anything at any time, so a batch
may be found old or young in any order.  What the writer accepts is only logged.

A record is neither lost nor handed over twice, whichever trigger empties the buffer.  With an
archive that accepts everything, the raw table ends with the records as they came.
-/

namespace Historian

namespace HistorianBridge

structure Config where
  maxBatchSize : Nat := 32
  /-- In milliseconds. -/
  maxBatchAge : ℤ := 5000

end HistorianBridge

/-- The bridge with what it has handed to its writer and what it has logged. -/
structure HistorianBridge (ν : Type) where
  config : HistorianBridge.Config := {}
  pending : List (HistoryRecord ν) := []
  /-- In nanoseconds of the steady clock. -/
  batchEpoch : ℤ
  written : List (List (HistoryRecord ν)) := []
  /-- The warnings of partial flushes: how many records of how many were accepted. -/
  partialFlushes : List (Nat × Nat) := []

namespace HistorianBridge

variable {ν : Type}

/-- The number the writer accepts and the clock afterwards are parameters. -/
def flushLocked (b : HistorianBridge ν) (accepted : Nat) (now : ℤ) : HistorianBridge ν :=
  if b.pending.isEmpty then b
  else
    { b with
      written := b.written ++ [b.pending]
      partialFlushes :=
        if accepted ≠ b.pending.length then b.partialFlushes ++ [(accepted, b.pending.length)]
        else b.partialFlushes
      pending := []
      batchEpoch := now }

def flush (b : HistorianBridge ν) (accepted : Nat) (now : ℤ) : HistorianBridge ν :=
  b.flushLocked accepted now

/-- The clock is read once for the age of the batch, and once more if that is flushed. -/
def enqueue (b : HistorianBridge ν) (record : HistoryRecord ν) (now : ℤ) (accepted : Nat)
    (later : ℤ) : HistorianBridge ν :=
  let b := { b with pending := b.pending ++ [record] }
  let full := b.pending.length ≥ b.config.maxBatchSize
  let stale := now - b.batchEpoch ≥ b.config.maxBatchAge * 1000000
  if full ∨ stale then b.flushLocked accepted later else b

/-- What the destructor does. -/
def destroy (b : HistorianBridge ν) (accepted : Nat) (now : ℤ) : HistorianBridge ν :=
  b.flush accepted now

/-! ## Runs -/

inductive Call (ν : Type) where
  | enqueue (record : HistoryRecord ν) (now : ℤ) (accepted : Nat) (later : ℤ)
  | flush (accepted : Nat) (now : ℤ)

def step (b : HistorianBridge ν) : Call ν → HistorianBridge ν
  | .enqueue record now accepted later => b.enqueue record now accepted later
  | .flush accepted now => b.flush accepted now

/-- The bridge after a run; it is made at a reading of the clock. -/
def after (config : Config) (epoch : ℤ) (run : List (Call ν)) : HistorianBridge ν :=
  run.foldl step { config := config, batchEpoch := epoch }

def Call.record? : Call ν → Option (HistoryRecord ν)
  | .enqueue record _ _ _ => some record
  | .flush _ _ => none

/-- The records of a run, in order. -/
def enqueued (run : List (Call ν)) : List (HistoryRecord ν) :=
  run.filterMap Call.record?

/-- Every record is in one batch or in the tail, and no batch is empty or too large. -/
structure Accounted (b : HistorianBridge ν) (records : List (HistoryRecord ν)) : Prop where
  records : b.written.flatten ++ b.pending = records
  nonempty : ∀ batch ∈ b.written, batch ≠ []
  bounded : ∀ batch ∈ b.written, batch.length ≤ b.config.maxBatchSize

/-- The buffer takes one more record before it is full. -/
def HasRoom (b : HistorianBridge ν) : Prop := b.pending.length < b.config.maxBatchSize

/-- The law of a run, up to and including the end of the bridge. -/
structure BatchingLaw (config : Config) (epoch : ℤ) (run : List (Call ν)) : Prop where
  accounted : (after config epoch run).Accounted (enqueued run)
  /-- The buffer is never left full. -/
  pending : (after config epoch run).pending.length < config.maxBatchSize
  flushed : ∀ earlier accepted now, run = earlier ++ [.flush accepted now] →
    (after config epoch run).pending = []
  destroyed : ∀ accepted now, ((after config epoch run).destroy accepted now).pending = [] ∧
    ((after config epoch run).destroy accepted now).Accounted (enqueued run)

/-! ## One call -/

theorem config_flushLocked (b : HistorianBridge ν) (accepted : Nat) (now : ℤ) :
    (b.flushLocked accepted now).config = b.config := by
  rw [flushLocked]
  split <;> rfl

theorem pending_flushLocked (b : HistorianBridge ν) (accepted : Nat) (now : ℤ) :
    (b.flushLocked accepted now).pending = [] := by
  rw [flushLocked]
  split
  next hempty => exact List.isEmpty_iff.mp hempty
  next => rfl

/-- A flush of a buffer that is not too large moves its records into one batch. -/
theorem Accounted.flushLocked {b : HistorianBridge ν} {records : List (HistoryRecord ν)}
    (hb : b.Accounted records) (hsize : b.pending.length ≤ b.config.maxBatchSize)
    (accepted : Nat) (now : ℤ) : (b.flushLocked accepted now).Accounted records := by
  rw [HistorianBridge.flushLocked]
  split
  next => exact hb
  next hpending =>
    refine ⟨?_, ?_, ?_⟩
    · rw [← hb.records, List.flatten_concat, List.append_nil]
    · rw [List.forall_mem_append, List.forall_mem_singleton]
      exact ⟨hb.nonempty, fun hempty => hpending (List.isEmpty_iff.mpr hempty)⟩
    · rw [List.forall_mem_append, List.forall_mem_singleton]
      exact ⟨hb.bounded, hsize⟩

/-- A record that is pushed is the last of the tail. -/
theorem Accounted.push {b : HistorianBridge ν} {records : List (HistoryRecord ν)}
    (hb : b.Accounted records) (record : HistoryRecord ν) :
    { b with pending := b.pending ++ [record] }.Accounted (records ++ [record]) :=
  ⟨by rw [← hb.records, List.append_assoc], hb.nonempty, hb.bounded⟩

theorem config_step (b : HistorianBridge ν) (call : Call ν) : (b.step call).config = b.config := by
  cases call with
  | enqueue record now accepted later =>
      rw [step, enqueue]
      split
      next => exact config_flushLocked _ _ _
      next => rfl
  | flush accepted now => exact config_flushLocked _ _ _

/-- No call leaves a full buffer. -/
theorem HasRoom.step {b : HistorianBridge ν} (hb : b.HasRoom) (call : Call ν) :
    (b.step call).HasRoom := by
  rw [HasRoom, config_step]
  cases call with
  | enqueue record now accepted later =>
      rw [HistorianBridge.step, enqueue]
      split
      next => rw [pending_flushLocked]; exact Nat.zero_lt_of_lt hb
      next hroom => exact not_le.mp fun hfull => hroom (.inl hfull)
  | flush accepted now =>
      rw [HistorianBridge.step, flush, pending_flushLocked]
      exact Nat.zero_lt_of_lt hb

theorem Accounted.step {b : HistorianBridge ν} {records : List (HistoryRecord ν)}
    (hb : b.Accounted records) (hroom : b.HasRoom)
    (call : Call ν) : (b.step call).Accounted (records ++ call.record?.toList) := by
  cases call with
  | enqueue record now accepted later =>
      have hpush := hb.push record
      rw [HistorianBridge.step, enqueue]
      split
      next =>
        refine hpush.flushLocked ?_ accepted later
        rw [List.length_append]
        exact hroom
      next => exact hpush
  | flush accepted now =>
      rw [show Call.record? (.flush accepted now) = (none : Option (HistoryRecord ν)) from rfl,
        Option.toList_none, List.append_nil]
      exact hb.flushLocked hroom.le accepted now

/-! ## The law -/

variable {config : Config} {epoch : ℤ}

theorem after_concat (run : List (Call ν)) (call : Call ν) :
    after config epoch (run ++ [call]) = (after config epoch run).step call :=
  List.foldl_concat ..

theorem config_after (run : List (Call ν)) : (after config epoch run).config = config := by
  induction run using List.reverseRecOn with
  | nil => rfl
  | append_singleton run call ih => rw [after_concat, config_step, ih]

theorem hasRoom_after (hconfig : 1 ≤ config.maxBatchSize) (run : List (Call ν)) :
    (after config epoch run).HasRoom := by
  induction run using List.reverseRecOn with
  | nil => exact hconfig
  | append_singleton run call ih =>
      rw [after_concat]
      exact ih.step call

theorem accounted_after (hconfig : 1 ≤ config.maxBatchSize) (run : List (Call ν)) :
    (after config epoch run).Accounted (enqueued run) := by
  induction run using List.reverseRecOn with
  | nil => exact ⟨rfl, List.forall_mem_nil _, List.forall_mem_nil _⟩
  | append_singleton run call ih =>
      rw [after_concat, enqueued, List.filterMap_append]
      have hstep := ih.step (hasRoom_after hconfig run) call
      cases call with
      | enqueue record now accepted later => exact hstep
      | flush accepted now => exact hstep

theorem destroy_after (hconfig : 1 ≤ config.maxBatchSize) (run : List (Call ν)) (accepted : Nat)
    (now : ℤ) : ((after config epoch run).destroy accepted now).pending = [] ∧
      ((after config epoch run).destroy accepted now).Accounted (enqueued run) :=
  ⟨pending_flushLocked _ _ _,
    (accounted_after hconfig run).flushLocked (hasRoom_after hconfig run).le accepted now⟩

/-- Whatever the clock reads and the writer accepts, a run loses no record and repeats none. -/
theorem batching_law (config : Config) (hconfig : 1 ≤ config.maxBatchSize) (epoch : ℤ)
    (run : List (Call ν)) : BatchingLaw config epoch run where
  accounted := accounted_after hconfig run
  pending := by
    have hroom := @hasRoom_after _ _ epoch hconfig run
    rwa [HasRoom, config_after] at hroom
  flushed := by
    rintro earlier accepted now rfl
    rw [after_concat]
    exact pending_flushLocked _ _ _
  destroyed := destroy_after hconfig run

/-- A batch of one goes to the writer at once, and a refused one is not kept. -/
theorem batching_law_one :
    BatchingLaw ⟨1, 5000⟩ 0
      [.enqueue ⟨7, .SystemState, 0, ()⟩ 3 0 4, .flush 0 5,
        .enqueue ⟨8, .OeePercent, 0, ()⟩ 2 1 1] :=
  batching_law ⟨1, 5000⟩ le_rfl 0 _

/-! ## The archive behind the bridge -/

/-- The archive after batches of which every statement succeeds. -/
def archive (db : Database ν) (batches : List (List (HistoryRecord ν))) : Database ν :=
  batches.foldl (fun db batch => (db.write batch fun _ => false).1) db

theorem raw_archive {db : Database ν} (hdb : db.saved = none)
    (batches : List (List (HistoryRecord ν))) :
    (archive db batches).tables .Raw =
      db.tables .Raw ++ batches.flatten.map HistoryRecord.row := by
  induction batches generalizing db with
  | nil => exact (List.append_nil _).symm
  | cons batch batches ih =>
      obtain ⟨hclosed, hrows⟩ := Database.write_succeeding hdb batch
      rw [List.flatten_cons, List.map_append, ← List.append_assoc, ← hrows]
      exact ih hclosed

/-- Once the bridge is gone, an archive that accepted everything has every record. -/
theorem raw_archive_destroy (hconfig : 1 ≤ config.maxBatchSize) (run : List (Call ν))
    (accepted : Nat) (now : ℤ) :
    (archive {} ((after config epoch run).destroy accepted now).written).tables .Raw =
      (enqueued run).map HistoryRecord.row := by
  obtain ⟨hpending, haccounted⟩ := @destroy_after _ _ epoch hconfig run accepted now
  rw [raw_archive rfl, ← haccounted.records, hpending, List.append_nil]
  rfl

end HistorianBridge

end Historian
