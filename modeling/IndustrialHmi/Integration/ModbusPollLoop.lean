import IndustrialHmi.Core.SpscQueue
import IndustrialHmi.Integration.ModbusReader

/-!
# The Modbus poll loop

`Pipeline` is what the poll thread and the drain thread work on: the register map,
the queue between them and the counters.  `pollOnce` and `drainOnce` are broken into
steps, and within a `push` or a `pop` one such step is one step of `Core.Threads`.
The reader is not part of the loop: a step that reads is given a reader, which may
answer anything.

`PollLoop` adds the two threads and the caller of `start` and `stop`.  A turn is one
step of one of the three.  A wait on a condition variable ends at any later turn,
because it may time out; `notify_one` and `notify_all` therefore change nothing.
The caller calls neither `pollOnce` nor `drainOnce` by itself, as only tests do, and
`stop` flushes the queue in the caller's own turns.
-/

namespace Modbus

open Ring

/-! ## The register map -/

/-- Modbus register class. -/
inductive RegisterType where
  | HoldingRegister
  | InputRegister

/-- Domain field that a register maps to. -/
inductive FieldKind where
  | EquipmentEnabled
  | EquipmentSupplyLevel
  | QualityPassRate

/-- One row of the register map. -/
structure RegisterMapping where
  slaveId : BitVec 8 := 1
  type : RegisterType := .HoldingRegister
  address : BitVec 16 := 0
  field : FieldKind := .EquipmentEnabled
  entityId : BitVec 32 := 0
  /-- The bits of the scale, a `float`. -/
  scale : BitVec 32 := 0x3f800000

/-- The read that the loop makes for an entry. -/
def RegisterMapping.request (entry : RegisterMapping) : Request :=
  match entry.type with
  | .HoldingRegister => .readHoldingRegisters entry.slaveId entry.address 1
  | .InputRegister => .readInputRegisters entry.slaveId entry.address 1

/-! ## The pipeline -/

/-- Queue depth: 256 slots, indexed by 64-bit words. -/
def kQueueCapacity : Capacity 64 := { bits := 8, pos := by decide, lt := by decide }

/-- A register mapping and the raw value just read. -/
structure RegisterSample where
  mapping : RegisterMapping
  value : BitVec 16

/-- Where `pollOnce` stands. -/
inductive PollOnceAt where
  /-- It reads the next entry, if there is one. -/
  | walking (rest : List RegisterMapping)
  /-- It has counted a successful read, which it is about to push. -/
  | counted (sample : RegisterSample) (rest : List RegisterMapping)
  | pushing (sample : RegisterSample) (rest : List RegisterMapping)
  /-- The queue was full: it is about to count the drop. -/
  | refused (sample : RegisterSample) (rest : List RegisterMapping)
  | returned

/-- Where `drainOnce` stands. -/
inductive DrainOnceAt where
  /-- It is about to call `pop`. -/
  | draining
  | popping
  /-- It has popped a sample, which it is about to hand to the bridge. -/
  | popped (sample : RegisterSample)
  | returned

/-- What a step does. -/
inductive Event where
  | none
  /-- `successfulReads` is incremented. -/
  | read (sample : RegisterSample)
  /-- `failedReads` is incremented. -/
  | failed (entry : RegisterMapping)
  /-- `push` finds the queue full. -/
  | refused (sample : RegisterSample)
  /-- `droppedSamples` is incremented. -/
  | dropped (sample : RegisterSample)
  /-- The bridge's `onRegisterChanged` is called. -/
  | dispatched (sample : RegisterSample)
  /-- The `stop` of a started loop returns. -/
  | stopped

structure Pipeline where
  map : List RegisterMapping
  queue : Core.Threads RegisterSample kQueueCapacity
  poll : PollOnceAt
  drain : DrainOnceAt
  successfulReads : BitVec 64
  failedReads : BitVec 64
  droppedSamples : BitVec 64

/-- One step of `pollOnce`. -/
def Pipeline.pollOnce (p : Pipeline) (reader : Reader) : Event × Pipeline :=
  match p.poll with
  | .walking [] => (.none, { p with poll := .returned })
  | .walking (entry :: rest) =>
      match reader entry.request with
      | .ok (value :: _) =>
          (.read ⟨entry, value⟩, { p with
            successfulReads := p.successfulReads + 1
            poll := .counted ⟨entry, value⟩ rest })
      | _ => (.failed entry, { p with failedReads := p.failedReads + 1, poll := .walking rest })
  | .counted sample rest =>
      (.none, { p with queue := (p.queue.step (.push sample)).2, poll := .pushing sample rest })
  | .pushing sample rest =>
      match p.queue.step .producer with
      | (.pushed _, queue) => (.none, { p with queue := queue, poll := .walking rest })
      | (.rejected _, queue) =>
          (.refused sample, { p with queue := queue, poll := .refused sample rest })
      | (_, queue) => (.none, { p with queue := queue })
  | .refused sample rest =>
      (.dropped sample, { p with droppedSamples := p.droppedSamples + 1, poll := .walking rest })
  | .returned => (.none, p)

/-- One step of `drainOnce`. -/
def Pipeline.drainOnce (p : Pipeline) : Event × Pipeline :=
  match p.drain with
  | .draining => (.none, { p with queue := (p.queue.step .pop).2, drain := .popping })
  | .popping =>
      match p.queue.step .consumer with
      | (.popped sample, queue) => (.none, { p with queue := queue, drain := .popped sample })
      | (.empty, queue) => (.none, { p with queue := queue, drain := .returned })
      | (_, queue) => (.none, { p with queue := queue })
  | .popped sample => (.dispatched sample, { p with drain := .draining })
  | .returned => (.none, p)

/-! ## The threads -/

/-- Where a worker thread stands. -/
inductive WorkerAt where
  /-- There is no thread: `joinable` is false. -/
  | none
  /-- At the head of its loop. -/
  | looping
  /-- In `pollOnce`, or in `drainOnce`. -/
  | working
  /-- About to look at its stop token again. -/
  | worked
  | sleeping
  | exited

/-- A worker thread and its stop token. -/
structure Worker where
  state : WorkerAt := .none
  stopRequested : Bool := false

/-- Where the caller stands. -/
inductive CallerAt where
  | idle
  /-- `start` has spawned the drain thread. -/
  | starting
  /-- `stop` waits for the poll thread. -/
  | joiningPoll
  /-- `stop` has joined the poll thread. -/
  | pollJoined
  /-- `stop` waits for the drain thread. -/
  | joiningDrain
  /-- `stop` is in `drainOnce`. -/
  | flushing

/-- A step of the caller or of a thread. -/
inductive Turn where
  | start
  | stop
  /-- The caller goes on with its call. -/
  | caller
  | poll (reader : Reader)
  | drain

structure PollLoop where
  pipeline : Pipeline
  /-- The poll thread. -/
  thread : Worker
  drainThread : Worker
  caller : CallerAt

def Worker.joinable (t : Worker) : Bool :=
  match t.state with
  | .none => false
  | _ => true

def Worker.goto (t : Worker) (state : WorkerAt) : Worker := { t with state := state }

def Worker.request_stop (t : Worker) : Worker := { t with stopRequested := true }

/-- A new thread. -/
def Worker.spawn : Worker := { state := .looping }

/-- One step of the poll thread. -/
def PollLoop.run (s : PollLoop) (reader : Reader) : Event × PollLoop :=
  match s.thread.state with
  | .looping =>
      if s.thread.stopRequested then (.none, { s with thread := s.thread.goto .exited })
      else (.none, { s with
        thread := s.thread.goto .working
        pipeline := { s.pipeline with poll := .walking s.pipeline.map } })
  | .working =>
      match s.pipeline.poll with
      | .returned => (.none, { s with thread := s.thread.goto .worked })
      | _ => ((s.pipeline.pollOnce reader).1, { s with pipeline := (s.pipeline.pollOnce reader).2 })
  | .worked =>
      if s.thread.stopRequested then (.none, { s with thread := s.thread.goto .exited })
      else (.none, { s with thread := s.thread.goto .sleeping })
  | .sleeping => (.none, { s with thread := s.thread.goto .looping })
  | _ => (.none, s)

/-- One step of the drain thread. -/
def PollLoop.drainRun (s : PollLoop) : Event × PollLoop :=
  match s.drainThread.state with
  | .looping =>
      if s.drainThread.stopRequested then
        (.none, { s with drainThread := s.drainThread.goto .exited })
      else (.none, { s with
        drainThread := s.drainThread.goto .working
        pipeline := { s.pipeline with drain := .draining } })
  | .working =>
      match s.pipeline.drain with
      | .returned => (.none, { s with drainThread := s.drainThread.goto .worked })
      | _ => (s.pipeline.drainOnce.1, { s with pipeline := s.pipeline.drainOnce.2 })
  | .worked =>
      if s.drainThread.stopRequested then
        (.none, { s with drainThread := s.drainThread.goto .exited })
      else (.none, { s with drainThread := s.drainThread.goto .sleeping })
  | .sleeping => (.none, { s with drainThread := s.drainThread.goto .looping })
  | _ => (.none, s)

/-- The call of `start`.  It spawns the consumer first. -/
def PollLoop.start (s : PollLoop) : PollLoop :=
  if s.thread.joinable then s
  else { s with drainThread := .spawn, caller := .starting }

/-- The call of `stop`. -/
def PollLoop.stop (s : PollLoop) : PollLoop :=
  if !s.thread.joinable then s
  else { s with thread := s.thread.request_stop, caller := .joiningPoll }

/-- One step of the caller within `start` or `stop`. -/
def PollLoop.resume (s : PollLoop) : Event × PollLoop :=
  match s.caller with
  | .idle => (.none, s)
  | .starting => (.none, { s with thread := .spawn, caller := .idle })
  | .joiningPoll =>
      match s.thread.state with
      | .exited => (.none, { s with thread := {}, caller := .pollJoined })
      | _ => (.none, s)
  | .pollJoined =>
      if s.drainThread.joinable then
        (.none, { s with drainThread := s.drainThread.request_stop, caller := .joiningDrain })
      else
        (.none, { s with pipeline := { s.pipeline with drain := .draining }, caller := .flushing })
  | .joiningDrain =>
      match s.drainThread.state with
      | .exited =>
          (.none, { s with
            drainThread := {}
            pipeline := { s.pipeline with drain := .draining }
            caller := .flushing })
      | _ => (.none, s)
  | .flushing =>
      match s.pipeline.drain with
      | .returned => (.stopped, { s with caller := .idle })
      | _ => (s.pipeline.drainOnce.1, { s with pipeline := s.pipeline.drainOnce.2 })

/-- One turn. -/
def PollLoop.step (s : PollLoop) : Turn → Event × PollLoop
  | .start =>
      match s.caller with
      | .idle => (.none, s.start)
      | _ => (.none, s)
  | .stop =>
      match s.caller with
      | .idle => (.none, s.stop)
      | _ => (.none, s)
  | .caller => s.resume
  | .poll reader => s.run reader
  | .drain => s.drainRun

/-- A loop that has not been started. -/
def PollLoop.fresh (map : List RegisterMapping) : PollLoop where
  pipeline :=
    { map := map
      queue := .fresh 0 fun _ => { mapping := {}, value := 0 }
      poll := .returned
      drain := .returned
      successfulReads := 0
      failedReads := 0
      droppedSamples := 0 }
  thread := {}
  drainThread := {}
  caller := .idle

/-! ## The account of a run -/

/-- What the events of a run say, each list in the order of the events. -/
structure Ledger where
  /-- The successful reads. -/
  reads : List RegisterSample := []
  /-- The successful reads that have not been dropped.  The sample that the poll thread drops
  is the one it has read last. -/
  kept : List RegisterSample := []
  failed : List RegisterMapping := []
  refused : List RegisterSample := []
  dropped : List RegisterSample := []
  dispatched : List RegisterSample := []

def Ledger.record (l : Ledger) : Event → Ledger
  | .none => l
  | .read sample => { l with reads := l.reads ++ [sample], kept := l.kept ++ [sample] }
  | .failed entry => { l with failed := l.failed ++ [entry] }
  | .refused sample => { l with refused := l.refused ++ [sample] }
  | .dropped sample => { l with kept := l.kept.dropLast, dropped := l.dropped ++ [sample] }
  | .dispatched sample => { l with dispatched := l.dispatched ++ [sample] }
  | .stopped => l

/-- The sample that `pollOnce` has counted and neither pushed nor dropped. -/
def PollOnceAt.hand : PollOnceAt → List RegisterSample
  | .counted sample _ => [sample]
  | .pushing sample _ => [sample]
  | .refused sample _ => [sample]
  | _ => []

/-- The sample that `drainOnce` has popped and not dispatched. -/
def DrainOnceAt.hand : DrainOnceAt → List RegisterSample
  | .popped sample => [sample]
  | _ => []

end Modbus
