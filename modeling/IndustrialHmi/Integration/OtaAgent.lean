import Mathlib.Logic.Function.Basic
import IndustrialHmi.Theory.IoContext
import IndustrialHmi.Theory.Runs
import IndustrialHmi.Integration.OtaSteps

/-!
# The OTA agent

`OtaAgent` runs one session against a serial link.  It has an io_context and one thread that runs
it, and every call into the session is made by a handler there.  `start` and `stop` may be called
by any thread, and by the completion callback, which runs on the agent's own thread.  Frames are
posted by the thread of the transport.

A step here is one access to what the threads share, of one of them: the two atomics, the lock, the
io_context, the snapshot.  `Impl.advance` takes a step of a thread that is inside `start` or
`stop`, and `Impl.turn` one of the agent's thread.  The log has the calls of `start` and their
returns, the returns of `stop`, and what the agent's thread does.

Memory is sequentially consistent, and `send` and the callback return.
-/

namespace Ota

/-! ## What a session says of itself -/

/-- One digit of `{:02X}`. -/
def upperHexDigit (n : UInt8) : Char :=
  Char.ofNat (if n < 10 then 48 + n.toNat else 55 + n.toNat)

def OtaSession.failureText (s : OtaSession) : String :=
  match s.ctx.failure with
  | .none => ""
  | .boardRefused =>
      "the board refused the update, NAK code 0x" ++
        String.ofList [upperHexDigit (s.ctx.nakCode / 16), upperHexDigit (s.ctx.nakCode % 16)]
  | .noAnswer => "the board stopped answering after " ++ toString s.ctx.timing.resends ++ " resends"
  | .protocolError =>
      if s.ctx.image.isEmpty then "the image is empty, nothing to send"
      else "the board sent a frame the protocol does not allow at this point"
  | .wrongVersion =>
      "after the update the board reports version " ++ toString s.ctx.boardVersion.toNat ++
        ", not " ++ toString s.ctx.version.toNat

/-- The update has finished or failed. -/
def OtaSession.Terminal (s : OtaSession) : Prop := s.stage = .done ∨ s.stage = .failed

instance (s : OtaSession) : Decidable s.Terminal := inferInstanceAs (Decidable (_ ∨ _))

theorem OtaSession.Terminal.apply {s : OtaSession} (h : s.Terminal) (op : Op) :
    s.apply op = ([], s) :=
  OtaSession.apply_finished h op

theorem OtaSession.not_terminal {s : OtaSession} (hok : s.ctx.failure = .none)
    (hdone : s.sm ≠ .done) (hfailed : s.sm ≠ .failed) : ¬ s.Terminal := by
  rintro (h | h)
  · exact hdone (OtaSession.ok_of_stage (show s.stage = TableState.done.shown from h) (by simp)).2
  · rw [OtaSession.stage_of_ok hok] at h
    exact hfailed (@TableState.shown_injective s.sm .failed h)

theorem TableState.Waiting.open {sm : TableState} (h : sm.Waiting) : sm ≠ .done ∧ sm ≠ .failed := by
  rcases h with rfl | rfl | rfl | rfl | rfl | rfl <;> simp

/-- A row that sends a frame does not end the update. -/
theorem Row.quiet_or_open {c c' : Context} {sm sm' : TableState} {e : Event}
    (h : Row c sm e sm' c') (hok : c.failure = .none) :
    c'.outbox = [] ∨ ¬ OtaSession.Terminal { ctx := c', sm := sm' } := by
  cases h with
  | startEmpty | upToDate | committed | wrongVersion | confirmed | refused | givenUp =>
      exact .inl rfl
  | damaged hwaiting hcan | silent hwaiting hcan =>
      exact .inr (OtaSession.not_terminal hok hwaiting.open.1 hwaiting.open.2)
  | start | onTrial | needsUpdate | begun | chunkAcked | allAcked | rebooted | rechecked =>
      exact .inr (OtaSession.not_terminal hok (by simp) (by simp))

/-- An operation that ends the update has nothing to send. -/
theorem OtaSession.apply_quiet {s : OtaSession} {op : Op} (h : (s.apply op).2.Terminal) :
    (s.apply op).1 = [] := by
  cases hcases : s.apply op with
  | mk bytes s' =>
      have houtcome := apply_cases s op
      rw [hcases] at houtcome h
      cases houtcome with
      | ignored => rfl
      | rejected now waitingOut => rfl
      | moved htrigger hok hrow => exact (hrow.quiet_or_open hok).resolve_right (not_not.mpr h)

end Ota

namespace OtaAgent

open Ota Flash

/-- A copy of where one update has got to. -/
structure OtaProgress where
  stage : OtaStage := .idle
  failure : OtaFailure := .none
  failureText : String := ""
  nakCode : UInt8 := 0
  bytesAcknowledged : Nat := 0
  imageSize : Nat := 0
  alreadyUpToDate : Bool := false
  transportFailed : Bool := false
  deriving DecidableEq

/-- The copy that `publishProgress` makes. -/
def OtaProgress.of (session : OtaSession) (transportFailed : Bool) : OtaProgress where
  stage := session.stage
  failure := session.ctx.failure
  failureText := session.failureText
  nakCode := session.ctx.nakCode
  bytesAcknowledged := session.bytesAcknowledged
  imageSize := session.ctx.image.length
  alreadyUpToDate := session.ctx.alreadyUpToDate
  transportFailed := transportFailed

/-! ## Handlers, threads and places in the code -/

/-- What waits on the io_context.  A tick has the error code of its timer. -/
inductive Handler where
  | beginUpdate
  | onFrame (frame : FlashFrame)
  | onTick (code : Bool)
  deriving DecidableEq

namespace Handler

/-- The handler of a wait that `expires_after` cancels. -/
def cancelled : Handler → Handler
  | .onTick _ => .onTick true
  | h => h

/-- Whether a handler gets to the session. -/
def proceeds (running : Bool) : Handler → Bool
  | .beginUpdate => true
  | .onFrame _ => running
  | .onTick code => !code && running

/-- The call that a handler makes at a time. -/
def op (now : Int) : Handler → Op
  | .beginUpdate => .start now
  | .onFrame frame => .onFrame frame now
  | .onTick _ => .onTick now

/-- The timer is set again after all handlers but those of frames. -/
def rearms : Handler → Bool
  | .onFrame _ => false
  | _ => true

end Handler

/-- Where the agent's thread is. -/
inductive AgentAt where
  | off
  | created
  /-- In `context.run`, between handlers. -/
  | polling
  | entered (h : Handler)
  /-- It calls the session next. -/
  | checked (h : Handler)
  | sending (h : Handler) (bytes : Bytes)
  | publishing (h : Handler)
  | firing (h : Handler)
  /-- In the completion callback. -/
  | calling
  | rearming
  /-- The run has returned. -/
  | over
  | joined
  deriving DecidableEq

/-- How far the `start` has got that latched `started`.  It holds the lock from `locked` to
`leaving`. -/
inductive Launch where
  | unlatched
  | latched
  | stored
  | posted
  | locked
  | creating
  | leaving
  | returned
  deriving DecidableEq

/-- How far the `stop` has got that holds the lock. -/
inductive Phase where
  | exchanging
  | stopping
  | joining
  | leaving
  deriving DecidableEq

inductive Mutex where
  | free
  | start
  /-- `late` tells that a `start` had returned when this `stop` began. -/
  | stop (phase : Phase) (late : Bool)
  deriving DecidableEq

inductive Thread where
  | agent
  | other (n : Nat)
  deriving DecidableEq

/-- Where a thread is that may call `start` and `stop`. -/
inductive CallerAt where
  | outside
  | starting
  /-- In the `start` that latched `started`. -/
  | launching
  | stopping (late destroys : Bool)
  /-- On the agent's thread, which ends the run and joins nothing. -/
  | ending (late : Bool)
  | inStop (destroys : Bool)
  deriving DecidableEq

inductive Entry where
  | startCalled
  | startReturned
  | stopReturned (late : Bool)
  | handled (op : Op)
  | sent (bytes : Bytes) (ok : Bool)
  | published (progress : OtaProgress)
  | done (progress : OtaProgress)
  deriving DecidableEq

/-- Everything one agent owns.  `send` and `onDone` tell whether these are set, `launch` where the
`start` is that latched `started`, and `released` that the agent is destroyed.  What is shared may
outlive it for as long as a sink or a handler holds it. -/
structure Impl where
  send : Bool
  onDone : Bool
  session : OtaSession
  transportFailed : Bool := false
  doneFired : Bool := false
  progress : OtaProgress
  context : IoContext Handler := {}
  running : Bool := false
  stopMutex : Mutex := .free
  launch : Launch := .unlatched
  agent : AgentAt := .off
  callers : Thread → CallerAt := fun _ => .outside
  released : Bool := false
  log : List Entry := []

namespace Impl

/-- The constructor publishes once. -/
def make (send onDone : Bool) (image : Bytes) (version : UInt32) (timing : Timing) : Impl where
  send := send
  onDone := onDone
  session := OtaSession.new image version timing
  progress := OtaProgress.of (OtaSession.new image version timing) false

def started (s : Impl) : Bool := s.launch ≠ .unlatched

/-- A thread moves to another place. -/
def moved (s : Impl) (t : Thread) (place : CallerAt) : Impl :=
  { s with callers := Function.update s.callers t place }

def record (s : Impl) (e : Entry) : Impl := { s with log := s.log ++ [e] }

/-! ## Starting and stopping -/

inductive Call where
  | start
  | stop
  | destroy
  deriving DecidableEq

/-- The agent's thread makes calls in the callback only, and does not destroy the agent there. -/
def call (s : Impl) (t : Thread) (c : Call) : Impl :=
  if s.callers t = .outside ∧ (t = .agent → s.agent = .calling) then
    match c with
    | .start => (s.moved t .starting).record .startCalled
    | .stop => s.moved t (.stopping (.startReturned ∈ s.log) false)
    | .destroy => if t = .agent then s else s.moved t (.stopping (.startReturned ∈ s.log) true)
  else s

/-- A step of the `start` that latched `started`. -/
def launchStep (s : Impl) (t : Thread) : Impl :=
  match s.launch with
  | .unlatched => s
  | .latched => { s with running := true, launch := .stored }
  | .stored => { s with context := s.context.post .beginUpdate, launch := .posted }
  | .posted => if s.stopMutex = .free then { s with stopMutex := .start, launch := .locked } else s
  | .locked => { s with launch := if s.running then .creating else .leaving }
  | .creating => { s with agent := .created, launch := .leaving }
  | .leaving =>
      ({ s with stopMutex := .free, launch := .returned }.moved t .outside).record .startReturned
  | .returned => s

/-- A step of the `stop` that holds the lock.  A thread is joinable until it is joined. -/
def stopStep (s : Impl) (t : Thread) (destroys : Bool) : Impl :=
  match s.stopMutex with
  | .stop .exchanging late =>
      if s.running then { s with running := false, stopMutex := .stop .stopping late }
      else { s with stopMutex := .stop .leaving late }
  | .stop .stopping late =>
      { s with context := s.context.stop, stopMutex := .stop .joining late }
  | .stop .joining late =>
      if s.agent = .off ∨ s.agent = .joined then { s with stopMutex := .stop .leaving late }
      else if s.agent = .over then
        { s with agent := .joined, stopMutex := .stop .leaving late }
      else s
  | .stop .leaving late =>
      ({ s with stopMutex := .free, released := s.released || destroys }.moved t .outside).record
        (.stopReturned late)
  | .free | .start => s

/-- A step of a thread that is inside `start` or `stop`. -/
def advance (s : Impl) (t : Thread) : Impl :=
  match s.callers t with
  | .outside => s
  | .starting =>
      if s.started then (s.moved t .outside).record .startReturned
      else { s with launch := .latched }.moved t .launching
  | .launching => s.launchStep t
  | .stopping late destroys =>
      if t = .agent then { s with running := false }.moved t (.ending late)
      else if s.stopMutex = .free then
        { s with stopMutex := .stop .exchanging late }.moved t (.inStop destroys)
      else s
  | .ending late =>
      ({ s with context := s.context.stop }.moved t .outside).record (.stopReturned late)
  | .inStop destroys => s.stopStep t destroys

/-! ## The agent's thread -/

/-- What the agent's thread finds: the handler it takes, whether a weak reference to a destroyed
agent has expired, the time, and what `send` answers. -/
structure Turn where
  pick : Nat := 0
  expired : Bool := false
  now : Int := 0
  ok : Bool := true

/-- A handler calls the session. -/
def handle (s : Impl) (h : Handler) (now : Int) : Impl :=
  match s.session.apply (h.op now) with
  | (bytes, session) =>
      { s with session := session, agent := .sending h bytes }.record (.handled (h.op now))

/-- An empty `send` fails like one that answers false. -/
def doSend (s : Impl) (h : Handler) (bytes : Bytes) (ok : Bool) : Impl :=
  if bytes = [] then { s with agent := .publishing h }
  else
    { s with
      transportFailed := s.transportFailed || !(s.send && ok)
      agent := .publishing h }.record (.sent bytes (s.send && ok))

def publishProgress (s : Impl) (h : Handler) : Impl :=
  let next := OtaProgress.of s.session s.transportFailed
  { s with progress := next, agent := .firing h }.record (.published next)

def fireDoneIfTerminal (s : Impl) (h : Handler) : Impl :=
  if s.session.Terminal then
    if s.doneFired then { s with agent := .polling }
    else if s.onDone then
      { s with doneFired := true, agent := .calling }.record (.done s.progress)
    else { s with doneFired := true, agent := .polling }
  else { s with agent := if h.rearms then .rearming else .polling }

def scheduleTick (s : Impl) : Impl :=
  { s with context := s.context.replace Handler.cancelled (.onTick false), agent := .polling }

/-- Between handlers: the run returns, or it takes one. -/
def poll (s : Impl) (turn : Turn) : Impl :=
  if s.context.stopped then { s with agent := .over }
  else if s.context.ranOut then { s with context := s.context.stop, agent := .over }
  else
    match s.context.queued[turn.pick]? with
    | none => s
    | some h =>
        { s with
          context := s.context.take turn.pick
          agent := if s.released && turn.expired then .polling else .entered h }

/-- A step of the agent's thread. -/
def turn (s : Impl) (turn : Turn) : Impl :=
  match s.agent with
  | .off | .over | .joined => s
  | .created => { s with agent := .polling }
  | .polling => s.poll turn
  | .entered h => { s with agent := if h.proceeds s.running then .checked h else .polling }
  | .checked h => s.handle h turn.now
  | .sending h bytes => s.doSend h bytes turn.ok
  | .publishing h => s.publishProgress h
  | .firing h => s.fireDoneIfTerminal h
  | .calling => if s.callers .agent = .outside then { s with agent := .polling } else s
  | .rearming => s.scheduleTick

/-! ## Runs -/

inductive Event where
  | call (t : Thread) (c : Call)
  | advance (t : Thread)
  /-- The sink gets a frame; `expired` is as in a turn. -/
  | frame (frame : FlashFrame) (expired : Bool)
  /-- The timer runs out. -/
  | expire
  | turn (turn : Turn)

/-- The sink posts a frame unless it finds the agent gone. -/
def frameSink (s : Impl) (frame : FlashFrame) (expired : Bool) : Impl :=
  if s.released && expired then s else { s with context := s.context.post (.onFrame frame) }

def step (s : Impl) : Event → Impl
  | .call t c => s.call t c
  | .advance t => s.advance t
  | .frame frame expired => s.frameSink frame expired
  | .expire => { s with context := s.context.finish }
  | .turn turn => s.turn turn

end Impl

end OtaAgent
