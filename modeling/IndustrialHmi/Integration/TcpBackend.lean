import IndustrialHmi.Theory.Json
import IndustrialHmi.Theory.Runs

/-!
# The TCP backend and its clients

One worker runs the io_context.  It accepts a client and serves it to the end, reading a line and
writing the answer with calls that block, and then it accepts the next.  `stop` clears
`running_`, stops the io_context and waits for the worker.

A worker that is between two clients sees that the io_context is stopped, and one that is between
two commands sees that `running_` is false.  One that is inside a read or a write sees neither.
It goes on when its client has sent a whole line, or has room, or has closed.  So `stop` depends on
the client that is served at that time, and on no other (`stop_progress_iff`).
-/

namespace Tcp

/-! ## Commands -/

def newline : UInt8 := 0x0A
def carriageReturn : UInt8 := 0x0D

def isSpace (b : UInt8) : Bool := b = 0x20 ∨ 0x09 ≤ b ∧ b ≤ 0x0D

def trim (t : Text) : Text := ((t.dropWhile isSpace).reverse.dropWhile isSpace).reverse

def tokenize (line : Text) : List Text := (line.splitOnP isSpace).filter (· ≠ [])

/-- An unsigned decimal number of 32 bits. -/
def parseId (t : Text) : Option Nat :=
  if t = [] ∨ ¬t.All fun b => 0x30 ≤ b ∧ b ≤ 0x39 then none
  else
    let id := t.foldl (fun n b => 10 * n + (b.toNat - 0x30)) 0
    if id < 2 ^ 32 then some id else none

/-- What a command reads from the models: the status and the products, as JSON on one line. -/
structure Snapshot where
  status : Text
  products : List Text

def ended (t : Text) : Text := t ++ [newline]

def help : Text :=
  ended (ascii "Available commands:") ++
  ended (ascii "  status                    JSON snapshot (running, equipment count)") ++
  ended (ascii "  products                  count line, then N JSON product objects") ++
  ended (ascii "  eq <id> on|off            toggle equipment (id is unsigned int)") ++
  ended (ascii "  production start|stop|reset") ++
  ended (ascii "  help                      this banner") ++
  ended (ascii "  quit                      close the connection")

def answerEq : List Text → Text
  | [id, state] =>
      if parseId id = none then ended (ascii "ERR bad id (expected unsigned integer)")
      else if state = ascii "on" ∨ state = ascii "off" then ended (ascii "OK")
      else ended (ascii "ERR expected on|off")
  | _ => ended (ascii "ERR usage: eq <id> on|off")

def answerProduction : List Text → Text
  | [verb] =>
      if verb = ascii "start" ∨ verb = ascii "stop" ∨ verb = ascii "reset" then
        ended (ascii "OK")
      else ended (ascii "ERR expected start|stop|reset")
  | _ => ended (ascii "ERR usage: production start|stop|reset")

/-- The answer to a command, and whether the connection stays open. -/
def dispatchCommand (snapshot : Snapshot) (line : Text) : Text × Bool :=
  match tokenize line with
  | [] => (ended (ascii "ERR empty command"), true)
  | cmd :: args =>
      if cmd = ascii "quit" ∨ cmd = ascii "exit" then (ended (ascii "BYE"), false)
      else if cmd = ascii "help" then (help, true)
      else if cmd = ascii "status" then (ended snapshot.status, true)
      else if cmd = ascii "products" then
        (ended (ascii (toString snapshot.products.length)) ++ snapshot.products.flatMap ended, true)
      else if cmd = ascii "eq" then (answerEq args, true)
      else if cmd = ascii "production" then (answerProduction args, true)
      else (ended (ascii "ERR unknown command: " ++ cmd), true)

theorem ended_ne_nil (t : Text) : ended t ≠ [] := List.append_ne_nil_of_right_ne_nil t nofun

theorem dispatchCommand_ne_nil (snapshot : Snapshot) (line : Text) :
    (dispatchCommand snapshot line).1 ≠ [] := by
  unfold dispatchCommand
  split
  · exact ended_ne_nil _
  · split_ifs
    · exact ended_ne_nil _
    · exact List.append_ne_nil_of_right_ne_nil _ (ended_ne_nil _)
    · exact ended_ne_nil _
    · exact List.append_ne_nil_of_left_ne_nil (ended_ne_nil _) _
    · unfold answerEq
      split
      · split_ifs <;> exact ended_ne_nil _
      · exact ended_ne_nil _
    · unfold answerProduction
      split
      · split_ifs <;> exact ended_ne_nil _
      · exact ended_ne_nil _
    · exact ended_ne_nil _

/-! ## The backend -/

/-- A connection: what its client has sent and nobody has read, how many bytes can be written to
it, and whether the client has closed it. -/
structure Peer where
  sent : Text := []
  room : Nat := 0
  closed : Bool := false

/-- Where the worker is.  While it serves a client it is before the next look at `running_`, in a
read, in the write of an answer, or behind its loop. -/
inductive Worker where
  | absent
  | accepting
  | looping (client : Nat)
  | reading (client : Nat)
  | writing (client : Nat) (rest : Text) (keepOpen : Bool)
  | leaving (client : Nat)

/-- The thread that calls `start` and `stop`: outside of both, in a `stop` that has cleared
`running_`, or in one that waits for the worker. -/
inductive Caller where
  | idle
  | stopping
  | joining
  deriving DecidableEq

/-- Clients are numbered as they connect. -/
structure State where
  running : Bool := false
  caller : Caller := .idle
  /-- `io_->stopped()`. -/
  ioStopped : Bool := false
  worker : Worker := .absent
  listening : Bool := false
  /-- Who waits to be accepted. -/
  backlog : List Nat := []
  peers : List Peer := []
  activeClients : Nat := 0

inductive Event where
  | connect (room : Nat)
  | send (client : Nat) (bytes : Text)
  | drain (client : Nat) (bytes : Nat)
  | close (client : Nat)
  | start (binds : Bool)
  | stop
  | stopIo
  | join
  | accept
  | acceptFails
  | leaveRun
  | check
  | read (snapshot : Snapshot) (throws : Bool)
  | write
  | leave

/-- A line, and what comes behind it. -/
def nextLine (sent : Text) : Option (Text × Text) :=
  if newline ∈ sent then
    some (sent.takeWhile (· ≠ newline), (sent.dropWhile (· ≠ newline)).drop 1)
  else none

/-- The command on a line. -/
def command (line : Text) : Text :=
  trim (if line.getLast? = some carriageReturn then line.dropLast else line)

namespace State

/-- Nobody is at the other end of a connection that was not made. -/
def peer (s : State) (client : Nat) : Peer := s.peers.getD client { closed := true }

def withPeer (s : State) (client : Nat) (f : Peer → Peer) : State :=
  { s with peers := s.peers.modify client f }

/-- A `start` makes a new acceptor, whose backlog is empty, and a worker. -/
def start (s : State) (binds : Bool) : State :=
  if s.running then s
  else if binds then
    { s with running := true, worker := .accepting, listening := true, backlog := [] }
  else s

def stop (s : State) : State :=
  if s.running then { s with running := false, caller := .stopping } else s

/-- A line is read and its command run.  A model that throws ends the worker. -/
def read (s : State) (client : Nat) (snapshot : Snapshot) (throws : Bool) : Option State :=
  match nextLine (s.peer client).sent with
  | none => if (s.peer client).closed then some { s with worker := .leaving client } else none
  | some (line, rest) =>
      let s := s.withPeer client fun p => { p with sent := rest }
      if command line = [] then some { s with worker := .looping client }
      else if throws then
        some { s with
          running := false
          worker := .absent
          activeClients := s.activeClients - 1 }
      else
        let (response, keepOpen) := dispatchCommand snapshot (command line)
        some { s with worker := .writing client response keepOpen }

/-- As much is written as there is room for. -/
def write (s : State) (client : Nat) (rest : Text) (keepOpen : Bool) : Option State :=
  if rest = [] then
    some { s with worker := if keepOpen then .looping client else .leaving client }
  else if (s.peer client).closed then some { s with worker := .leaving client }
  else if (s.peer client).room = 0 then none
  else
    let room := (s.peer client).room
    some { s.withPeer client fun p => { p with room := p.room - rest.length } with
      worker := .writing client (rest.drop room) keepOpen }

/-- The state after an event, if the event can happen. -/
def next (s : State) : Event → Option State
  | .connect room =>
      if s.listening then
        some { s with
          peers := s.peers ++ [{ room }]
          backlog := s.backlog ++ [s.peers.length] }
      else none
  | .send client bytes => some (s.withPeer client fun p => { p with sent := p.sent ++ bytes })
  | .drain client bytes => some (s.withPeer client fun p => { p with room := p.room + bytes })
  | .close client => some (s.withPeer client fun p => { p with closed := true })
  | .start binds => if s.caller = .idle then some (s.start binds) else none
  | .stop => if s.caller = .idle then some s.stop else none
  | .stopIo =>
      if s.caller = .stopping then some { s with ioStopped := true, caller := .joining } else none
  | .join =>
      match s.caller, s.worker with
      | .joining, .absent =>
          some { s with caller := .idle, ioStopped := false, listening := false, backlog := [] }
      | _, _ => none
  | .accept =>
      match s.worker, s.backlog, s.ioStopped with
      | .accepting, client :: rest, false =>
          some { s with
            worker := .looping client
            backlog := rest
            activeClients := s.activeClients + 1 }
      | _, _, _ => none
  | .acceptFails =>
      match s.worker, s.ioStopped with
      | .accepting, false => some { s with worker := .absent }
      | _, _ => none
  | .leaveRun =>
      match s.worker, s.ioStopped with
      | .accepting, true => some { s with worker := .absent }
      | _, _ => none
  | .check =>
      match s.worker with
      | .looping client =>
          some { s with worker := if s.running then .reading client else .leaving client }
      | _ => none
  | .read snapshot throws =>
      match s.worker with
      | .reading client => s.read client snapshot throws
      | _ => none
  | .write =>
      match s.worker with
      | .writing client rest keepOpen => s.write client rest keepOpen
      | _ => none
  | .leave =>
      match s.worker with
      | .leaving _ => some { s with worker := .accepting, activeClients := s.activeClients - 1 }
      | _ => none

/-- An event that cannot happen changes nothing. -/
def step (s : State) (e : Event) : State := (s.next e).getD s

end State

/-! ## What is to hold -/

/-- The client that is served. -/
def Worker.client : Worker → Option Nat
  | .absent => none
  | .accepting => none
  | .looping client => some client
  | .reading client => some client
  | .writing client _ _ => some client
  | .leaving client => some client

/-- The events of the worker and of `stop`. -/
def Event.isBackend : Event → Bool
  | .stopIo => true
  | .join => true
  | .accept => true
  | .leaveRun => true
  | .check => true
  | .read _ _ => true
  | .write => true
  | .leave => true
  | _ => false

namespace State

/-- A `stop` that has not returned can go on, or the worker can, without any client. -/
def Progress (s : State) : Prop :=
  s.caller ≠ .idle → ∃ e : Event, e.isBackend = true ∧ (s.next e).isSome = true

/-- With no `stop` under way, a backend that does not run has no worker and counts no client, and
its next `start` begins with no connection. -/
structure Clean (s : State) : Prop where
  worker : s.caller = .idle → s.running = false → s.worker = .absent
  clients : s.caller = .idle → s.running = false → s.activeClients = 0
  fresh : s.caller = .idle → s.running = false →
    (s.start true).backlog = [] ∧ (s.start true).worker.client = none

/-- The worker is in a read or a write that waits for its client. -/
def Blocked (s : State) : Prop :=
  (∃ client, s.worker = .reading client ∧ nextLine (s.peer client).sent = none ∧
      (s.peer client).closed = false) ∨
    ∃ client rest keepOpen, s.worker = .writing client rest keepOpen ∧ rest ≠ [] ∧
      (s.peer client).room = 0 ∧ (s.peer client).closed = false

/-- When `stop` begins to wait, the worker is not blocked.  While it waits, a client whose command
is run has room for some of the answer or has closed, and one to whom the rest of an answer is
written has room for it or has closed. -/
def Meets (s : State) : Event → Prop
  | .stopIo => s.caller = .stopping → ¬s.Blocked
  | .read _ throws => s.caller = .joining → throws = false →
      ∀ client line rest, s.worker = .reading client →
        nextLine (s.peer client).sent = some (line, rest) → command line ≠ [] →
        0 < (s.peer client).room ∨ (s.peer client).closed = true
  | .write => s.caller = .joining →
      ∀ client rest keepOpen, s.worker = .writing client rest keepOpen →
        rest.length ≤ (s.peer client).room ∨ (s.peer client).closed = true
  | _ => True

/-! ## What an event does -/

/-- An event that can happen: what it needs, and the state after it. -/
inductive Moves (s : State) : Event → State → Prop where
  | connect (room : Nat) (hlistening : s.listening = true) :
      Moves s (.connect room)
        { s with peers := s.peers ++ [{ room }], backlog := s.backlog ++ [s.peers.length] }
  | send (client : Nat) (bytes : Text) :
      Moves s (.send client bytes) (s.withPeer client fun p => { p with sent := p.sent ++ bytes })
  | drain (client bytes : Nat) :
      Moves s (.drain client bytes) (s.withPeer client fun p => { p with room := p.room + bytes })
  | close (client : Nat) :
      Moves s (.close client) (s.withPeer client fun p => { p with closed := true })
  | start (binds : Bool) (hidle : s.caller = .idle) : Moves s (.start binds) (s.start binds)
  | stop (hidle : s.caller = .idle) : Moves s .stop s.stop
  | stopIo (hstopping : s.caller = .stopping) :
      Moves s .stopIo { s with ioStopped := true, caller := .joining }
  | join (hjoining : s.caller = .joining) (habsent : s.worker = .absent) :
      Moves s .join
        { s with caller := .idle, ioStopped := false, listening := false, backlog := [] }
  | accept {client : Nat} {rest : List Nat} (hworker : s.worker = .accepting)
      (hbacklog : s.backlog = client :: rest) (hio : s.ioStopped = false) :
      Moves s .accept
        { s with
          worker := .looping client
          backlog := rest
          activeClients := s.activeClients + 1 }
  | acceptFails (hworker : s.worker = .accepting) (hio : s.ioStopped = false) :
      Moves s .acceptFails { s with worker := .absent }
  | leaveRun (hworker : s.worker = .accepting) (hio : s.ioStopped = true) :
      Moves s .leaveRun { s with worker := .absent }
  | check {client : Nat} (hworker : s.worker = .looping client) :
      Moves s .check { s with worker := if s.running then .reading client else .leaving client }
  | read {client : Nat} {snapshot : Snapshot} {throws : Bool} {s' : State}
      (hworker : s.worker = .reading client) (hread : s.read client snapshot throws = some s') :
      Moves s (.read snapshot throws) s'
  | write {client : Nat} {rest : Text} {keepOpen : Bool} {s' : State}
      (hworker : s.worker = .writing client rest keepOpen)
      (hwrite : s.write client rest keepOpen = some s') : Moves s .write s'
  | leave {client : Nat} (hworker : s.worker = .leaving client) :
      Moves s .leave { s with worker := .accepting, activeClients := s.activeClients - 1 }

/-- A read that can go on: what the client has sent, and the state after it. -/
inductive Reads (s : State) (client : Nat) (snapshot : Snapshot) (throws : Bool) :
    State → Prop where
  | gone (hline : nextLine (s.peer client).sent = none) :
      Reads s client snapshot throws { s with worker := .leaving client }
  | empty {line rest : Text} (hline : nextLine (s.peer client).sent = some (line, rest))
      (hempty : command line = []) :
      Reads s client snapshot throws
        { s.withPeer client fun p => { p with sent := rest } with worker := .looping client }
  | threw {line rest : Text} (hline : nextLine (s.peer client).sent = some (line, rest))
      (hcommand : command line ≠ []) (hthrows : throws = true) :
      Reads s client snapshot throws
        { s.withPeer client fun p => { p with sent := rest } with
          running := false
          worker := .absent
          activeClients := s.activeClients - 1 }
  | answered {line rest : Text} (hline : nextLine (s.peer client).sent = some (line, rest))
      (hcommand : command line ≠ []) (hthrows : throws = false) :
      Reads s client snapshot throws
        { s.withPeer client fun p => { p with sent := rest } with
          worker := .writing client (dispatchCommand snapshot (command line)).1
            (dispatchCommand snapshot (command line)).2 }

/-- A write that can go on, and the state after it. -/
inductive Writes (s : State) (client : Nat) (rest : Text) (keepOpen : Bool) : State → Prop where
  | done (hrest : rest = []) :
      Writes s client rest keepOpen
        { s with worker := if keepOpen then .looping client else .leaving client }
  | closed (hclosed : (s.peer client).closed = true) :
      Writes s client rest keepOpen { s with worker := .leaving client }
  | wrote (hclosed : ¬(s.peer client).closed = true) :
      Writes s client rest keepOpen
        { s.withPeer client fun p => { p with room := p.room - rest.length } with
          worker := .writing client (rest.drop (s.peer client).room) keepOpen }

theorem reads_of_read {s s' : State} {client : Nat} {snapshot : Snapshot} {throws : Bool}
    (hread : s.read client snapshot throws = some s') : Reads s client snapshot throws s' := by
  rw [State.read] at hread
  split at hread
  next hline =>
    split at hread
    next => exact Option.some.inj hread ▸ .gone hline
    next => cases hread
  next line rest hline =>
    dsimp only at hread
    split at hread
    next hempty => exact Option.some.inj hread ▸ .empty hline hempty
    next hcommand =>
      split at hread
      next hthrows => exact Option.some.inj hread ▸ .threw hline hcommand hthrows
      next hthrows =>
        exact Option.some.inj hread ▸ .answered hline hcommand (Bool.eq_false_iff.mpr hthrows)

theorem writes_of_write {s s' : State} {client : Nat} {rest : Text} {keepOpen : Bool}
    (hwrite : s.write client rest keepOpen = some s') : Writes s client rest keepOpen s' := by
  rw [State.write] at hwrite
  split at hwrite
  next hrest => exact Option.some.inj hwrite ▸ .done hrest
  next =>
    split at hwrite
    next hclosed => exact Option.some.inj hwrite ▸ .closed hclosed
    next hclosed =>
      split at hwrite
      next => cases hwrite
      next => exact Option.some.inj hwrite ▸ .wrote hclosed

theorem moves_of_next {s s' : State} {e : Event} (hnext : s.next e = some s') : Moves s e s' := by
  cases e with
  | connect room =>
      rw [State.next] at hnext
      split at hnext
      next hlistening => exact Option.some.inj hnext ▸ .connect room hlistening
      next => cases hnext
  | send client bytes => exact Option.some.inj hnext ▸ .send client bytes
  | drain client bytes => exact Option.some.inj hnext ▸ .drain client bytes
  | close client => exact Option.some.inj hnext ▸ .close client
  | start binds =>
      rw [State.next] at hnext
      split at hnext
      next hidle => exact Option.some.inj hnext ▸ .start binds hidle
      next => cases hnext
  | stop =>
      rw [State.next] at hnext
      split at hnext
      next hidle => exact Option.some.inj hnext ▸ .stop hidle
      next => cases hnext
  | stopIo =>
      rw [State.next] at hnext
      split at hnext
      next hstopping => exact Option.some.inj hnext ▸ .stopIo hstopping
      next => cases hnext
  | join =>
      rw [State.next] at hnext
      split at hnext
      next hjoining habsent => exact Option.some.inj hnext ▸ .join hjoining habsent
      next => cases hnext
  | accept =>
      rw [State.next] at hnext
      split at hnext
      next hworker hbacklog hio => exact Option.some.inj hnext ▸ .accept hworker hbacklog hio
      next => cases hnext
  | acceptFails =>
      rw [State.next] at hnext
      split at hnext
      next hworker hio => exact Option.some.inj hnext ▸ .acceptFails hworker hio
      next => cases hnext
  | leaveRun =>
      rw [State.next] at hnext
      split at hnext
      next hworker hio => exact Option.some.inj hnext ▸ .leaveRun hworker hio
      next => cases hnext
  | check =>
      rw [State.next] at hnext
      split at hnext
      next client hworker => exact Option.some.inj hnext ▸ .check hworker
      next => cases hnext
  | read snapshot throws =>
      rw [State.next] at hnext
      split at hnext
      next client hworker => exact .read hworker hnext
      next => cases hnext
  | write =>
      rw [State.next] at hnext
      split at hnext
      next client rest keepOpen hworker => exact .write hworker hnext
      next => cases hnext
  | leave =>
      rw [State.next] at hnext
      split at hnext
      next client hworker => exact Option.some.inj hnext ▸ .leave hworker
      next => cases hnext

/-- An event happens, or it changes nothing. -/
theorem step_cases (s : State) (e : Event) :
    (s.next e = none ∧ s.step e = s) ∨ Moves s e (s.step e) := by
  cases hnext : s.next e with
  | none => exact Or.inl ⟨rfl, by rw [step, hnext]; rfl⟩
  | some s' =>
      refine Or.inr (moves_of_next ?_)
      rw [step, hnext]
      rfl

/-! ## What holds in every run -/

structure Core (s : State) : Prop where
  idle : s.caller = .idle → s.running = false → s.worker = .absent
  stopping : s.caller ≠ .idle → s.running = false
  stopped : s.caller = .joining → s.ioStopped = true
  counted : s.activeClients = s.worker.client.toList.length
  known : ∀ client ∈ s.backlog ++ s.worker.client.toList, client < s.peers.length

theorem Core.withPeer {s : State} (h : s.Core) (client : Nat) (f : Peer → Peer) :
    (s.withPeer client f).Core := by
  refine ⟨h.idle, h.stopping, h.stopped, h.counted, fun c hc => ?_⟩
  show c < (s.peers.modify client f).length
  rw [List.length_modify]
  exact h.known c hc

/-- The worker goes on with its client, or with none. -/
theorem Core.withWorker {s : State} (h : s.Core) {w : Worker} (hw : w.client = s.worker.client)
    (hpresent : s.worker ≠ .absent) : Core { s with worker := w } := by
  refine ⟨fun hidle hrunning => absurd (h.idle hidle hrunning) hpresent, h.stopping, h.stopped,
    ?_, ?_⟩
  · show s.activeClients = w.client.toList.length
    rw [hw]
    exact h.counted
  · show ∀ client ∈ s.backlog ++ w.client.toList, client < s.peers.length
    rw [hw]
    exact h.known

/-- The worker has done with its client, and ends if the backend does not run. -/
theorem Core.withoutClient {s : State} (h : s.Core) {client : Nat}
    (hclient : s.worker.client = some client) (w : Worker) (running : Bool)
    (hw : w.client = none) (hidle : s.caller = .idle → running = false → w = .absent)
    (hstopping : s.caller ≠ .idle → running = false) :
    Core { s with running := running, worker := w, activeClients := s.activeClients - 1 } := by
  refine ⟨hidle, hstopping, h.stopped, ?_, fun c hc => h.known c ?_⟩
  · show s.activeClients - 1 = w.client.toList.length
    rw [h.counted, hclient, hw]
    rfl
  · have hc' : c ∈ s.backlog ++ w.client.toList := hc
    rw [hw, Option.toList_none, List.append_nil] at hc'
    exact List.mem_append_left _ hc'

theorem Core.start {s : State} (h : s.Core) (hidle : s.caller = .idle) (binds : Bool) :
    (s.start binds).Core := by
  rw [State.start]
  split
  next => exact h
  next hrunning =>
    split
    next =>
      have hcounted := h.counted
      rw [h.idle hidle (Bool.eq_false_iff.mpr hrunning)] at hcounted
      exact ⟨fun _ => nofun, fun hne => absurd hidle hne, h.stopped, hcounted, nofun⟩
    next => exact h

theorem Core.stop {s : State} (h : s.Core) : s.stop.Core := by
  rw [State.stop]
  split
  next => exact ⟨nofun, fun _ => rfl, nofun, h.counted, h.known⟩
  next => exact h

theorem Core.read {s s' : State} (h : s.Core) {client : Nat} (hworker : s.worker = .reading client)
    {snapshot : Snapshot} {throws : Bool} (hread : s.read client snapshot throws = some s') :
    s'.Core := by
  have hclient : s.worker.client = some client := by rw [hworker]; rfl
  have hpresent : s.worker ≠ .absent := by rw [hworker]; nofun
  have hpeer (rest : Text) := h.withPeer client fun p => { p with sent := rest }
  cases reads_of_read hread with
  | gone _ => exact h.withWorker hclient.symm hpresent
  | empty _ _ => exact (hpeer _).withWorker hclient.symm hpresent
  | threw _ _ _ =>
      exact (hpeer _).withoutClient hclient .absent false rfl (fun _ _ => rfl) fun _ => rfl
  | answered _ _ _ => exact (hpeer _).withWorker hclient.symm hpresent

theorem Core.write {s s' : State} (h : s.Core) {client : Nat} {rest : Text} {keepOpen : Bool}
    (hworker : s.worker = .writing client rest keepOpen)
    (hwrite : s.write client rest keepOpen = some s') : s'.Core := by
  have hclient : s.worker.client = some client := by rw [hworker]; rfl
  have hpresent : s.worker ≠ .absent := by rw [hworker]; nofun
  cases writes_of_write hwrite with
  | done _ =>
      refine h.withWorker ?_ hpresent
      rw [hclient]
      cases keepOpen <;> rfl
  | closed _ => exact h.withWorker hclient.symm hpresent
  | wrote _ => exact (h.withPeer client _).withWorker hclient.symm hpresent

theorem Core.moves {s s' : State} (h : s.Core) {e : Event} (hmoves : Moves s e s') : s'.Core := by
  cases hmoves with
  | connect room _ =>
      refine ⟨h.idle, h.stopping, h.stopped, h.counted, fun c hc => ?_⟩
      show c < (s.peers ++ [({ room } : Peer)]).length
      rw [List.length_append, List.length_singleton]
      rcases List.mem_append.mp hc with hc | hc
      · rcases List.mem_append.mp hc with hc | hc
        · exact Nat.lt_succ_of_lt (h.known c (List.mem_append_left _ hc))
        · rw [List.mem_singleton.mp hc]
          exact Nat.lt_succ_self _
      · exact Nat.lt_succ_of_lt (h.known c (List.mem_append_right _ hc))
  | send client bytes => exact h.withPeer client _
  | drain client bytes => exact h.withPeer client _
  | close client => exact h.withPeer client _
  | start binds hidle => exact h.start hidle binds
  | stop _ => exact h.stop
  | stopIo hstopping =>
      have hrunning := h.stopping (by rw [hstopping]; nofun)
      exact ⟨nofun, fun _ => hrunning, fun _ => rfl, h.counted, h.known⟩
  | join hjoining habsent =>
      refine ⟨fun _ _ => habsent, fun hne => absurd rfl hne, nofun, h.counted, fun c hc => ?_⟩
      exact h.known c (List.mem_append_right _ hc)
  | accept hworker hbacklog _ =>
      have hcounted := h.counted
      rw [hworker] at hcounted
      refine ⟨fun hidle hrunning => ?_, h.stopping, h.stopped, ?_, fun c hc => h.known c ?_⟩
      · have habsent := h.idle hidle hrunning
        rw [hworker] at habsent
        cases habsent
      · show s.activeClients + 1 = 1
        rw [hcounted]
        rfl
      · rw [hbacklog]
        refine List.mem_append_left _ ?_
        rcases List.mem_append.mp hc with hc | hc
        · exact List.mem_cons_of_mem _ hc
        · rw [List.mem_singleton.mp hc]
          exact List.mem_cons_self
  | acceptFails hworker _ => exact h.withWorker (by rw [hworker]; rfl) (by rw [hworker]; nofun)
  | leaveRun hworker _ => exact h.withWorker (by rw [hworker]; rfl) (by rw [hworker]; nofun)
  | check hworker =>
      refine h.withWorker ?_ (by rw [hworker]; nofun)
      rw [hworker]
      split <;> rfl
  | read hworker hread => exact h.read hworker hread
  | write hworker hwrite => exact h.write hworker hwrite
  | leave hworker =>
      refine h.withoutClient (by rw [hworker]; rfl) .accepting s.running rfl ?_ h.stopping
      intro hidle hrunning
      have habsent := h.idle hidle hrunning
      rw [hworker] at habsent
      cases habsent

theorem Core.step {s : State} (h : s.Core) (e : Event) : (s.step e).Core := by
  obtain ⟨_, hstep⟩ | hmoves := s.step_cases e
  · rw [hstep]
    exact h
  · exact h.moves hmoves

theorem Core.clean {s : State} (h : s.Core) : s.Clean := by
  refine ⟨h.idle, fun hidle hrunning => ?_, fun hidle hrunning => ?_⟩
  · rw [h.counted, h.idle hidle hrunning]
    rfl
  · rw [State.start, hrunning, if_neg Bool.false_ne_true, if_pos rfl]
    exact ⟨rfl, rfl⟩

/-! ## When the worker is blocked -/

/-- A `stop` that waits does not wait for a client. -/
def Free (s : State) : Prop := s.caller = .joining → ¬s.Blocked

theorem read_eq_none {s : State} {client : Nat} {snapshot : Snapshot} {throws : Bool} :
    s.read client snapshot throws = none ↔
      nextLine (s.peer client).sent = none ∧ (s.peer client).closed = false := by
  rw [State.read]
  cases hline : nextLine (s.peer client).sent with
  | none =>
      cases hclosed : (s.peer client).closed with
      | false => exact ⟨fun _ => ⟨rfl, rfl⟩, fun _ => rfl⟩
      | true => exact ⟨nofun, fun h => absurd h.2.symm Bool.false_ne_true⟩
  | some line =>
      refine ⟨fun h => ?_, fun h => absurd h.1 nofun⟩
      obtain ⟨line, rest⟩ := line
      dsimp only at h
      split at h
      next => cases h
      next => split at h <;> cases h

theorem write_eq_none {s : State} {client : Nat} {rest : Text} {keepOpen : Bool} :
    s.write client rest keepOpen = none ↔
      rest ≠ [] ∧ (s.peer client).room = 0 ∧ (s.peer client).closed = false := by
  rw [State.write]
  split
  next hrest => exact ⟨nofun, fun h => absurd hrest h.1⟩
  next hrest =>
    split
    next hclosed => exact ⟨nofun, fun h => absurd (hclosed.symm.trans h.2.2) nofun⟩
    next hclosed =>
      split
      next hroom => exact ⟨fun _ => ⟨hrest, hroom, Bool.eq_false_iff.mpr hclosed⟩, fun _ => rfl⟩
      next hroom => exact ⟨nofun, fun h => absurd h.2.1 hroom⟩

/-- The worker is blocked in a read or a write that cannot happen. -/
theorem blocked_reading {s : State} {client : Nat} (hworker : s.worker = .reading client)
    (snapshot : Snapshot) (throws : Bool) :
    s.Blocked ↔ s.read client snapshot throws = none := by
  rw [read_eq_none]
  constructor
  · rintro (⟨client', hworker', h⟩ | ⟨client', rest, keepOpen, hworker', _⟩)
    · rw [hworker] at hworker'
      cases hworker'
      exact h
    · rw [hworker] at hworker'
      cases hworker'
  · intro h
    exact Or.inl ⟨client, hworker, h⟩

theorem blocked_writing {s : State} {client : Nat} {rest : Text} {keepOpen : Bool}
    (hworker : s.worker = .writing client rest keepOpen) :
    s.Blocked ↔ s.write client rest keepOpen = none := by
  rw [write_eq_none]
  constructor
  · rintro (⟨client', hworker', _⟩ | ⟨client', rest', keepOpen', hworker', h⟩)
    · rw [hworker] at hworker'
      cases hworker'
    · rw [hworker] at hworker'
      cases hworker'
      exact h
  · intro h
    exact Or.inr ⟨client, rest, keepOpen, hworker, h⟩

theorem not_blocked_writing_iff {s : State} {client : Nat} {rest : Text} {keepOpen : Bool}
    (hworker : s.worker = .writing client rest keepOpen) (hrest : rest ≠ []) :
    ¬s.Blocked ↔ 0 < (s.peer client).room ∨ (s.peer client).closed = true := by
  rw [blocked_writing hworker, write_eq_none, and_iff_right hrest, not_and_or, Bool.not_eq_false,
    Nat.pos_iff_ne_zero]

/-- Elsewhere the worker is not blocked. -/
theorem not_blocked {s : State} {w : Worker} (hworker : s.worker = w)
    (hreading : ∀ client, w ≠ .reading client)
    (hwriting : ∀ client rest keepOpen, w ≠ .writing client rest keepOpen) : ¬s.Blocked := by
  rintro (⟨client, h, _⟩ | ⟨client, rest, keepOpen, h, _⟩)
  · exact hreading client (hworker.symm.trans h)
  · exact hwriting client rest keepOpen (hworker.symm.trans h)

/-- A worker that is blocked under a `stop` that waits is where nothing of the backend happens. -/
theorem not_enabled_of_blocked {s : State} (hjoining : s.caller = .joining) (hblocked : s.Blocked)
    {e : Event} (he : e.isBackend = true) : s.next e = none := by
  cases hnext : s.next e with
  | none => rfl
  | some s' =>
      refine absurd hblocked ?_
      cases moves_of_next hnext with
      | stopIo hstopping => exact absurd (hjoining.symm.trans hstopping) nofun
      | join _ habsent => exact not_blocked habsent nofun nofun
      | accept hworker _ _ => exact not_blocked hworker nofun nofun
      | leaveRun hworker _ => exact not_blocked hworker nofun nofun
      | check hworker => exact not_blocked hworker nofun nofun
      | leave hworker => exact not_blocked hworker nofun nofun
      | read hworker hread =>
          rw [blocked_reading hworker, hread]
          exact nofun
      | write hworker hwrite =>
          rw [blocked_writing hworker, hwrite]
          exact nofun
      | _ => cases he

/-- Where a `stop` does not wait for a client, it or the worker can go on. -/
theorem Core.progress_iff {s : State} (h : s.Core) : s.Progress ↔ s.Free := by
  constructor
  · intro hprogress hjoining hblocked
    obtain ⟨e, hbackend, henabled⟩ := hprogress (by rw [hjoining]; nofun)
    rw [not_enabled_of_blocked hjoining hblocked hbackend] at henabled
    cases henabled
  · intro hfree hbusy
    cases hcaller : s.caller with
    | idle => exact absurd hcaller hbusy
    | stopping => exact ⟨.stopIo, rfl, by rw [State.next, if_pos hcaller]; rfl⟩
    | joining =>
        have hnot := hfree hcaller
        cases hworker : s.worker with
        | absent => exact ⟨.join, rfl, by rw [State.next, hcaller, hworker]; rfl⟩
        | accepting =>
            exact ⟨.leaveRun, rfl, by rw [State.next, hworker, h.stopped hcaller]; rfl⟩
        | looping client => exact ⟨.check, rfl, by rw [State.next, hworker]; rfl⟩
        | leaving client => exact ⟨.leave, rfl, by rw [State.next, hworker]; rfl⟩
        | reading client =>
            refine ⟨.read ⟨[], []⟩ false, rfl, ?_⟩
            rw [State.next, hworker]
            exact Option.isSome_iff_ne_none.mpr (hnot ∘ (blocked_reading hworker _ _).mpr)
        | writing client rest keepOpen =>
            refine ⟨.write, rfl, ?_⟩
            rw [State.next, hworker]
            exact Option.isSome_iff_ne_none.mpr (hnot ∘ (blocked_writing hworker).mpr)

/-! ## What frees or blocks -/

/-- A change of a connection that does not block who uses it. -/
structure Eases (p p' : Peer) : Prop where
  sent : nextLine p'.sent = none → nextLine p.sent = none
  room : p'.room = 0 → p.room = 0
  closed : p'.closed = false → p.closed = false

theorem Eases.refl (p : Peer) : Eases p p := ⟨id, id, id⟩

theorem eases_send (p : Peer) (bytes : Text) : Eases p { p with sent := p.sent ++ bytes } := by
  refine ⟨fun h => ?_, id, id⟩
  rw [nextLine] at h ⊢
  split at h
  next => cases h
  next hline => exact if_neg fun hmem => hline (List.mem_append_left _ hmem)

theorem eases_drain (p : Peer) (bytes : Nat) : Eases p { p with room := p.room + bytes } :=
  ⟨id, fun h => (Nat.add_eq_zero_iff.mp h).1, id⟩

theorem eases_close (p : Peer) : Eases p { p with closed := true } :=
  ⟨id, id, nofun⟩

theorem peer_withPeer (s : State) (client other : Nat) (f : Peer → Peer) :
    (s.withPeer client f).peer other = s.peer other ∨
      (s.withPeer client f).peer other = f (s.peer other) := by
  rw [peer, peer, withPeer, List.getD_eq_getElem?_getD, List.getD_eq_getElem?_getD,
    List.getElem?_modify]
  split
  next =>
    cases s.peers[other]? with
    | none => exact Or.inl rfl
    | some p => exact Or.inr rfl
  next =>
    refine Or.inl ?_
    cases s.peers[other]? <;> rfl

/-- A client that has not closed has connected. -/
theorem peer_withPeer_self {s : State} {client : Nat} (hclosed : (s.peer client).closed ≠ true)
    (f : Peer → Peer) : (s.withPeer client f).peer client = f (s.peer client) := by
  rw [peer, List.getD_eq_getElem?_getD] at hclosed
  rw [peer, peer, withPeer, List.getD_eq_getElem?_getD, List.getD_eq_getElem?_getD,
    List.getElem?_modify_eq]
  cases hpeer : s.peers[client]? with
  | none =>
      rw [hpeer] at hclosed
      exact absurd rfl hclosed
  | some p => rfl

theorem blocked_of_eases {s s' : State} (h : s'.Blocked) (hworker : s'.worker = s.worker)
    (hpeers : ∀ client, s.worker.client = some client → Eases (s.peer client) (s'.peer client)) :
    s.Blocked := by
  obtain ⟨client, hreading, hline, hclosed⟩ | ⟨client, rest, keepOpen, hwriting, hrest, hroom,
    hclosed⟩ := h
  · rw [hworker] at hreading
    have heases := hpeers client (by rw [hreading]; rfl)
    exact Or.inl ⟨client, hreading, heases.sent hline, heases.closed hclosed⟩
  · rw [hworker] at hwriting
    have heases := hpeers client (by rw [hwriting]; rfl)
    exact Or.inr ⟨client, rest, keepOpen, hwriting, hrest, heases.room hroom,
      heases.closed hclosed⟩

theorem Free.withPeer {s : State} (h : s.Free) (client : Nat) {f : Peer → Peer}
    (hf : ∀ p, Eases p (f p)) : (s.withPeer client f).Free := by
  intro hjoining hblocked
  refine h hjoining (blocked_of_eases hblocked rfl fun other _ => ?_)
  obtain hsame | hchanged := s.peer_withPeer client other f
  · rw [hsame]
    exact Eases.refl _
  · rw [hchanged]
    exact hf _

theorem Free.connect {s : State} (hcore : s.Core) (h : s.Free) (room : Nat) :
    Free { s with peers := s.peers ++ [{ room }], backlog := s.backlog ++ [s.peers.length] } := by
  intro hjoining hblocked
  refine h hjoining (blocked_of_eases hblocked rfl fun client hclient => ?_)
  have hlt : client < s.peers.length := by
    refine hcore.known client (List.mem_append_right _ ?_)
    rw [hclient]
    exact List.mem_singleton_self _
  have hsame : (s.peers ++ [({ room } : Peer)]).getD client { closed := true } = s.peer client := by
    rw [peer, List.getD_eq_getElem?_getD, List.getElem?_append_left hlt,
      List.getD_eq_getElem?_getD]
  show Eases _ ((s.peers ++ [({ room } : Peer)]).getD client { closed := true })
  rw [hsame]
  exact Eases.refl _

/-- What a worker in a read has to meet, where a line is there and where none is. -/
theorem meets_read_some {s : State} {client : Nat} (hworker : s.worker = .reading client)
    {snapshot : Snapshot} {throws : Bool} {line rest : Text}
    (hline : nextLine (s.peer client).sent = some (line, rest)) :
    s.Meets (.read snapshot throws) ↔ (s.caller = .joining → throws = false → command line ≠ [] →
      0 < (s.peer client).room ∨ (s.peer client).closed = true) := by
  constructor
  · intro h hjoining hthrows hcommand
    exact h hjoining hthrows client line rest hworker hline hcommand
  · intro h hjoining hthrows client' line' rest' hworker' hline' hcommand
    rw [hworker] at hworker'
    cases hworker'
    rw [hline] at hline'
    cases hline'
    exact h hjoining hthrows hcommand

theorem meets_read_none {s : State} {client : Nat} (hworker : s.worker = .reading client)
    {snapshot : Snapshot} {throws : Bool} (hline : nextLine (s.peer client).sent = none) :
    s.Meets (.read snapshot throws) := by
  intro _ _ client' line rest hworker' hline'
  rw [hworker] at hworker'
  cases hworker'
  rw [hline] at hline'
  cases hline'

theorem meets_write {s : State} {client : Nat} {rest : Text} {keepOpen : Bool}
    (hworker : s.worker = .writing client rest keepOpen) :
    s.Meets .write ↔ (s.caller = .joining →
      rest.length ≤ (s.peer client).room ∨ (s.peer client).closed = true) := by
  constructor
  · intro h hjoining
    exact h hjoining client rest keepOpen hworker
  · intro h hjoining client' rest' keepOpen' hworker'
    rw [hworker] at hworker'
    cases hworker'
    exact h hjoining

/-- A line is read.  If its command is answered, the answer is to be written. -/
theorem free_read_iff {s s' : State} {client : Nat} (hworker : s.worker = .reading client)
    {snapshot : Snapshot} {throws : Bool} (hread : s.read client snapshot throws = some s') :
    s'.Free ↔ s.Meets (.read snapshot throws) := by
  cases reads_of_read hread with
  | gone hline =>
      exact iff_of_true (fun _ => not_blocked rfl nofun nofun) (meets_read_none hworker hline)
  | empty hline hempty =>
      rw [meets_read_some hworker hline]
      exact iff_of_true (fun _ => not_blocked rfl nofun nofun)
        fun _ _ hcommand => absurd hempty hcommand
  | threw hline hcommand hthrows =>
      rw [meets_read_some hworker hline]
      exact iff_of_true (fun _ => not_blocked rfl nofun nofun)
        fun _ hfalse => absurd (hfalse.symm.trans hthrows) Bool.false_ne_true
  | @answered line rest hline hcommand hthrows =>
      rw [meets_read_some hworker hline]
      have hsame : ((s.withPeer client fun p => { p with sent := rest }).peer client).room =
            (s.peer client).room ∧
          ((s.withPeer client fun p => { p with sent := rest }).peer client).closed =
            (s.peer client).closed := by
        obtain h | h := s.peer_withPeer client client fun p => { p with sent := rest }
        · rw [h]
          exact ⟨rfl, rfl⟩
        · rw [h]
          exact ⟨rfl, rfl⟩
      have hwriting := not_blocked_writing_iff
        (s := { s.withPeer client fun p => { p with sent := rest } with
          worker := .writing client (dispatchCommand snapshot (command line)).1
            (dispatchCommand snapshot (command line)).2 })
        rfl (dispatchCommand_ne_nil snapshot (command line))
      refine imp_congr_right fun _ => hwriting.trans ?_
      show 0 < ((s.withPeer client fun p => { p with sent := rest }).peer client).room ∨
        ((s.withPeer client fun p => { p with sent := rest }).peer client).closed = true ↔ _
      rw [hsame.1, hsame.2]
      exact ⟨fun h _ _ => h, fun h => h hthrows hcommand⟩

/-- What fits of an answer is written.  The rest waits for room. -/
theorem free_write_iff {s s' : State} {client : Nat} {rest : Text} {keepOpen : Bool}
    (hworker : s.worker = .writing client rest keepOpen)
    (hwrite : s.write client rest keepOpen = some s') : s'.Free ↔ s.Meets .write := by
  rw [meets_write hworker]
  cases writes_of_write hwrite with
  | done hrest =>
      refine iff_of_true (fun _ => not_blocked rfl ?_ ?_) fun _ => Or.inl ?_
      · intro client'
        cases keepOpen <;> nofun
      · intro client' rest' keepOpen'
        cases keepOpen <;> nofun
      · rw [hrest]
        exact Nat.zero_le _
  | closed hclosed =>
      exact iff_of_true (fun _ => not_blocked rfl nofun nofun) fun _ => Or.inr hclosed
  | wrote hclosed =>
      have hpeer := peer_withPeer_self hclosed fun p => { p with room := p.room - rest.length }
      by_cases hfits : rest.length ≤ (s.peer client).room
      · refine iff_of_true (fun _ hblocked => ?_) fun _ => Or.inl hfits
        exact (write_eq_none.mp ((blocked_writing rfl).mp hblocked)).1
          (List.drop_eq_nil_of_le hfits)
      · refine imp_congr_right fun _ => iff_of_false (fun hnot => hnot ?_)
          (not_or.mpr ⟨hfits, hclosed⟩)
        refine (blocked_writing rfl).mpr (write_eq_none.mpr ⟨?_, ?_, ?_⟩)
        · exact fun hnil => hfits (List.drop_eq_nil_iff.mp hnil)
        · show ((s.withPeer client _).peer client).room = 0
          rw [hpeer]
          exact Nat.sub_eq_zero_of_le (Nat.le_of_not_le hfits)
        · show ((s.withPeer client _).peer client).closed = false
          rw [hpeer]
          exact Bool.eq_false_iff.mpr hclosed

/-- An event that cannot happen is met. -/
theorem Free.meets {s : State} (h : s.Free) {e : Event} (hnext : s.next e = none) : s.Meets e := by
  cases e with
  | stopIo =>
      intro hstopping
      rw [State.next, if_pos hstopping] at hnext
      cases hnext
  | read snapshot throws =>
      intro _ _ client line rest hworker hline
      rw [State.next, hworker] at hnext
      have hnone := (read_eq_none.mp hnext).1
      rw [hline] at hnone
      cases hnone
  | write =>
      intro hjoining client rest keepOpen hworker
      rw [State.next, hworker] at hnext
      exact absurd ((blocked_writing hworker).mpr hnext) (h hjoining)
  | _ => trivial

/-- A `stop` that waits comes to wait for a client in the steps that do not meet the condition. -/
theorem Core.free_moves_iff {s s' : State} (hcore : s.Core) (h : s.Free) {e : Event}
    (hmoves : Moves s e s') : s'.Free ↔ s.Meets e := by
  cases hmoves with
  | connect room _ => exact iff_of_true (h.connect hcore room) trivial
  | send client bytes => exact iff_of_true (h.withPeer client fun p => eases_send p bytes) trivial
  | drain client bytes =>
      exact iff_of_true (h.withPeer client fun p => eases_drain p bytes) trivial
  | close client => exact iff_of_true (h.withPeer client eases_close) trivial
  | start binds hidle =>
      refine iff_of_true (fun hjoining => ?_) trivial
      rw [State.start] at hjoining
      split_ifs at hjoining <;> cases hidle.symm.trans hjoining
  | stop hidle =>
      refine iff_of_true (fun hjoining => ?_) trivial
      rw [State.stop] at hjoining
      split at hjoining
      next => cases hjoining
      next => cases hidle.symm.trans hjoining
  | stopIo hstopping => exact ⟨fun hfree _ => hfree rfl, fun hmeets _ => hmeets hstopping⟩
  | join _ _ => exact iff_of_true nofun trivial
  | accept _ _ _ => exact iff_of_true (fun _ => not_blocked rfl nofun nofun) trivial
  | acceptFails _ _ => exact iff_of_true (fun _ => not_blocked rfl nofun nofun) trivial
  | leaveRun _ _ => exact iff_of_true (fun _ => not_blocked rfl nofun nofun) trivial
  | check _ =>
      -- A `stop` that waits has cleared `running_`, so the loop is left before the next read.
      refine iff_of_true (fun hjoining => ?_) trivial
      have hbusy : s.caller ≠ .idle := by
        rw [show s.caller = .joining from hjoining]
        nofun
      rw [hcore.stopping hbusy]
      exact not_blocked rfl nofun nofun
  | read hworker hread => exact free_read_iff hworker hread
  | write hworker hwrite => exact free_write_iff hworker hwrite
  | leave _ => exact iff_of_true (fun _ => not_blocked rfl nofun nofun) trivial

theorem Core.free_step_iff {s : State} (hcore : s.Core) (h : s.Free) (e : Event) :
    (s.step e).Free ↔ s.Meets e := by
  obtain ⟨hnext, hstep⟩ | hmoves := s.step_cases e
  · rw [hstep]
    exact iff_of_true h (h.meets hnext)
  · exact hcore.free_moves_iff h hmoves

/-- In a run that meets the condition, and in no other, a `stop` that has not returned can always
go on.  What is left when it has returned is clean in every run. -/
theorem stop_progress_iff (events : List Event) :
    Runs.Along step (fun s e => (s.step e).Progress ∧ (s.step e).Clean) {} events ↔
      Runs.Along step Meets {} events := by
  have hinitial : Core {} := ⟨fun _ _ => rfl, fun h => absurd rfl h, nofun, rfl, nofun⟩
  refine Runs.along_iff (I := fun s => s.Core ∧ s.Free) ⟨hinitial, nofun⟩ ?_ ?_
  · intro s e ⟨hcore, hfree⟩
    have hcore' := hcore.step e
    rw [and_iff_left hcore'.clean, hcore'.progress_iff]
    exact hcore.free_step_iff hfree e
  · intro s e ⟨hcore, hfree⟩ hmeets
    exact ⟨hcore.step e, (hcore.free_step_iff hfree e).mpr hmeets⟩

/-- A client connects and sends nothing, and `stop` is called. -/
def idleClient : List Event := [.start true, .connect 10, .accept, .check, .stop, .stopIo]

/-- While a client that is served is idle, `stop` waits and nothing of the backend can happen. -/
theorem stop_waits_for_idle_client : ¬(idleClient.foldl step {}).Progress := by
  intro hprogress
  obtain ⟨e, hbackend, henabled⟩ := hprogress nofun
  have hnone : (idleClient.foldl step {}).next e = none :=
    not_enabled_of_blocked rfl (Or.inl ⟨0, rfl, rfl, rfl⟩) hbackend
  rw [hnone] at henabled
  cases henabled

end State

end Tcp
