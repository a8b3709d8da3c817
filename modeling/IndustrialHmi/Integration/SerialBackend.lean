import Mathlib.Data.List.Basic

/-!
# The serial backend

`send` is called from any thread.  It looks at the running flag and posts its bytes under a lock;
the thread of the io_context takes what was posted into a queue, and writes the queue to the port
one entry after the other.  `start` and `stop` are called from one thread, and every step of a call
is a step here, so a session may end between any two steps of the others.

A handler runs to its end once it has begun, also when the context is stopped meanwhile.  What is
written is kept with the session that was started last (`Session`).
-/

namespace SerialBackend

abbrev Bytes := List UInt8

/-! ## Asio state -/

/-- A write that was begun: how many bytes the port has taken, and whether it is over, and how. -/
structure Write where
  data : Bytes
  taken : Nat := 0
  ended : Option Bool := none

structure SerialIo where
  /-- What the handlers hold that were posted and have not run, in posting order. -/
  posts : List Bytes := []
  writes : List Write := []
  portOpen : Bool := false
  reading : Bool := false
  stopped : Bool := false
  writeQueue : List Bytes := []

namespace SerialIo

def writeNext (io : SerialIo) : SerialIo :=
  match io.writeQueue with
  | [] => io
  | front :: _ => { io with writes := io.writes ++ [{ data := front }] }

/-- The handler that `send` posts. -/
def push (io : SerialIo) (data : Bytes) : SerialIo :=
  if data = [] then io
  else
    let io := { io with writeQueue := io.writeQueue ++ [data] }
    if io.writeQueue.length = 1 then io.writeNext else io

/-- The handler of a write. -/
def written (io : SerialIo) (ok : Bool) : SerialIo :=
  if !ok then { io with writeQueue := [] }
  else
    let io := { io with writeQueue := io.writeQueue.tail }
    if io.writeQueue ≠ [] then io.writeNext else io

/-- The run of the context has nothing left to wait for. -/
def ranOut (io : SerialIo) : Bool := io.posts.isEmpty && io.writes.isEmpty && !io.reading

end SerialIo

/-! ## Sessions -/

/-- What became of a send with bytes. -/
inductive Fate where
  | whole (data : Bytes)
  | cut (data : Bytes) (taken : Nat)
  | discarded (data : Bytes)
  deriving DecidableEq

namespace Fate

def data : Fate → Bytes
  | whole data | cut data _ | discarded data => data

/-- What the port has of it. -/
def bytes : Fate → Bytes
  | whole data => data
  | cut data taken => data.take taken
  | discarded _ => []

def failed : Fate → Bool
  | whole _ => false
  | cut _ _ | discarded _ => true

end Fate

/-- What can be seen of the time from one `start` to the next. -/
structure Session where
  /-- The sends that were accepted, in this order. -/
  accepted : List Bytes := []
  /-- Those of them whose handler has run. -/
  handled : List Bytes := []
  fates : List Fate := []
  /-- What the port has taken. -/
  wire : Bytes := []

def withBytes (sends : List Bytes) : List Bytes := sends.filter (· ≠ [])

/-- The sends queued behind the write in flight: they were handled, and have met no fate. -/
def Session.behind (session : Session) : List Bytes :=
  (withBytes session.handled).drop (session.fates.length + 1)

/-! ## The backend -/

/-- Where the thread is that calls `start` and `stop`. -/
inductive OwnerAt where
  | idle
  | opening
  | configuring
  /-- The port cannot be used, and the state of Asio is about to be replaced. -/
  | failing
  | launching
  | closing
  | stopping
  | joining
  | replacing
  deriving DecidableEq

def OwnerAt.starting : OwnerAt → Bool
  | opening | configuring | launching => true
  | _ => false

structure Backend where
  running : Bool := false
  io : SerialIo := {}
  /-- The thread is in the run of the context. -/
  worker : Bool := false
  owner : OwnerAt := .idle
  /-- What the `send` has that holds the lock. -/
  sending : Option Bytes := none
  /-- A `start` has returned, and no `stop` has begun since. -/
  up : Bool := false
  /-- What the calls of `send` have returned. -/
  answers : List Bool := []
  session : Session := {}
  past : List Session := []

inductive Event where
  /-- A `send` takes the lock and looks at the flag. -/
  | send (data : Bytes)
  /-- The `send` that holds the lock posts. -/
  | post
  | start
  | stop
  /-- The next step of the call of `start` or `stop`, and whether the port does what it asks for. -/
  | advance (ok : Bool)
  /-- The thread runs the handler that was posted first. -/
  | handler
  /-- The port takes bytes of a write. -/
  | takes (i n : Nat)
  /-- A write fails: it is cancelled, or the device is gone. -/
  | fails (i : Nat)
  /-- The thread runs the handler of a write that is over. -/
  | completed (i : Nat)
  | readFails
  | runReturns

namespace Backend

def send (s : Backend) (data : Bytes) : Backend :=
  if s.sending.isSome then s
  else if s.running then { s with sending := some data }
  else { s with answers := s.answers ++ [false] }

def post (s : Backend) : Backend :=
  match s.sending with
  | none => s
  | some data =>
      { s with
        io := { s.io with posts := s.io.posts ++ [data] }
        sending := none
        answers := s.answers ++ [true]
        session := { s.session with accepted := s.session.accepted ++ [data] } }

def start (s : Backend) : Backend :=
  if s.owner ≠ .idle then s
  else if s.running then s
  else
    { s with
      running := true
      owner := .opening
      session := {}
      past := s.past ++ [s.session] }

def stop (s : Backend) : Backend :=
  if s.owner ≠ .idle then s
  else if !s.running then s
  else { s with running := false, owner := .closing, up := false }

/-- The last step of a `stop`, and of a `start` that throws, waits for the lock. -/
def replaceIo (s : Backend) : Backend :=
  if s.sending.isSome then s else { s with io := {}, owner := .idle }

def advance (s : Backend) (ok : Bool) : Backend :=
  match s.owner with
  | .idle => s
  | .opening =>
      if ok then { s with io := { s.io with portOpen := true }, owner := .configuring }
      else { s with running := false, owner := .failing }
  | .configuring =>
      if ok then { s with owner := .launching }
      else { s with running := false, owner := .failing }
  | .failing => s.replaceIo
  | .launching =>
      { s with io := { s.io with reading := true }, worker := true, owner := .idle, up := true }
  | .closing => { s with io := { s.io with portOpen := s.io.portOpen && !ok }, owner := .stopping }
  | .stopping => { s with io := { s.io with stopped := true }, owner := .joining }
  | .joining => if s.worker then s else { s with owner := .replacing }
  | .replacing => s.replaceIo

def handler (s : Backend) : Backend :=
  match s.io.posts with
  | [] => s
  | data :: posts =>
      if s.worker then
        { s with
          io := ({ s.io with posts }).push data
          session := { s.session with handled := s.session.handled ++ [data] } }
      else s

def takes (s : Backend) (i n : Nat) : Backend :=
  match s.io.writes[i]? with
  | none => s
  | some w =>
      if s.io.portOpen ∧ w.ended = none ∧ w.taken + n ≤ w.data.length then
        { s with
          io := { s.io with
            writes := s.io.writes.set i { w with
              taken := w.taken + n
              ended := if w.taken + n = w.data.length then some true else none } }
          session := { s.session with
            wire := s.session.wire ++ (w.data.drop w.taken).take n } }
      else s

def fails (s : Backend) (i : Nat) : Backend :=
  match s.io.writes[i]? with
  | none => s
  | some w =>
      if w.ended = none then
        { s with io := { s.io with writes := s.io.writes.set i { w with ended := some false } } }
      else s

/-- What a write is the fate of: its own send, and when it fails also what is behind it in the
queue that its handler clears. -/
def fatesOf (w : Write) (ok : Bool) (writeQueue : List Bytes) : List Fate :=
  if ok then [.whole w.data] else .cut w.data w.taken :: writeQueue.tail.map .discarded

def completed (s : Backend) (i : Nat) : Backend :=
  match s.io.writes[i]? with
  | none => s
  | some w =>
      match w.ended with
      | none => s
      | some ok =>
          if s.worker then
            { s with
              io := ({ s.io with writes := s.io.writes.eraseIdx i }).written ok
              session := { s.session with
                fates := s.session.fates ++ fatesOf w ok s.io.writeQueue } }
          else s

def readFails (s : Backend) : Backend := { s with io := { s.io with reading := false } }

def runReturns (s : Backend) : Backend :=
  if s.io.stopped || s.io.ranOut then { s with worker := false } else s

def step (s : Backend) : Event → Backend
  | .send data => s.send data
  | .post => s.post
  | .start => s.start
  | .stop => s.stop
  | .advance ok => s.advance ok
  | .handler => s.handler
  | .takes i n => s.takes i n
  | .fails i => s.fails i
  | .completed i => s.completed i
  | .readFails => s.readFails
  | .runReturns => s.runReturns

end Backend

end SerialBackend
