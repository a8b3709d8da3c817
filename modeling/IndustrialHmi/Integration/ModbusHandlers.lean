import IndustrialHmi.Integration.ModbusClient
import IndustrialHmi.Theory.IoContext
import IndustrialHmi.Theory.Runs

/-!
# The completion handlers of the Modbus client

Each operation of a call has a handler that writes to the call's local variables.  The call runs
the io_context for as long as it waits.  What has not completed by then is cancelled.

A connect that is cancelled is run to its end.  The other three operations are cancelled by
`disconnect`, which restarts the io_context and does not run it.  So the handler stays on the
queue, and the next call that runs the io_context runs it (`outlives_iff`).
-/

namespace Modbus

inductive Operation where
  | connect
  | write
  | header
  | body
  deriving DecidableEq

/-- A handler refers to the local variables of the call that has armed it. -/
structure Handler where
  call : Nat
  operation : Operation
  deriving DecidableEq

def WriteOutcome.completes : WriteOutcome → Bool
  | .pending => false
  | .written _ => true
  | .failed => true

def ReadFailure.completes : ReadFailure → Bool
  | .pending => false
  | .eof => true
  | .failed => true

theorem ReadFailure.completes_eq_false (failure : ReadFailure) :
    failure.completes = false ↔ failure = .pending := by
  cases failure <;> simp [ReadFailure.completes]

/-- The client with its io_context.  Calls are numbered, and a handler that has run is kept with
the number of the call in which it ran. -/
structure AsioClient where
  client : Client := {}
  io : IoContext Handler := {}
  calls : Nat := 0
  ran : List (Nat × Handler) := []

namespace AsioClient

def arm (s : AsioClient) (operation : Operation) : AsioClient :=
  { s with io := s.io.arm ⟨s.calls, operation⟩ }

def runFor (s : AsioClient) (completes : Bool) : AsioClient :=
  { s with
    io := (s.io.runFor completes).2
    ran := s.ran ++ (s.io.runFor completes).1.map fun handler => (s.calls, handler) }

def cancel (s : AsioClient) : AsioClient := { s with io := s.io.cancel }

def restart (s : AsioClient) : AsioClient := { s with io := s.io.restart }

/-- Arms an operation and waits for it. -/
def await (s : AsioClient) (operation : Operation) (completes : Bool) : AsioClient :=
  (s.arm operation).restart.runFor completes

/-- The socket is cancelled and closed. -/
def disconnect (s : AsioClient) : AsioClient :=
  { s.cancel.restart with client := s.client.disconnect }

/-- Connects if the socket is down, and the error if there is one. -/
def ensureConnected (s : AsioClient) (outcome : ConnectOutcome) : AsioClient × Option IoError :=
  if s.client.connected && s.client.socket.isSome then (s, none)
  else
    -- the stale socket is closed, which cancels what is in flight on it
    let s := s.cancel.restart
    match outcome with
    | .unresolved => (s, some .ConnectionFailed)
    | .pending => (((s.arm .connect).runFor false).cancel.runFor true, some .Timeout)
    | .refused => ((s.arm .connect).runFor true, some .ConnectionFailed)
    | .connected =>
        let s := (s.arm .connect).runFor true
        ({ s with client := { s.client with connected := true, socket := some [] } }, none)

def receive (s : AsioClient) (ctx : ResponseContext) (network : Network) :
    AsioClient × Except IoError (List (BitVec 16)) :=
  match s.client.read kMbapHeaderSize network.header with
  | .error failure => ((s.await .header failure.completes).disconnect, .error failure.error)
  | .ok (header, c) =>
      let s := { s.await .header true with client := c }
      let length := readBe16 header 4
      if length = 0 || Client.kMaxLengthField < length then (s.disconnect, .error .DecodeFailed)
      else
        match s.client.read (length.toNat - 1) network.body with
        | .error failure => ((s.await .body failure.completes).disconnect, .error failure.error)
        | .ok (body, c) =>
            let settled := c.settle (decodeReadResponse (header ++ body) ctx)
            ({ s.await .body true with client := settled.1 }, settled.2)

def readImpl (s : AsioClient) (request : Request) (network : Network) :
    AsioClient × Except IoError (List (BitVec 16)) :=
  if request.quantity = 0 || kMaxRegistersPerRead < request.quantity then
    (s, .error .InvalidQuantity)
  else
    match s.ensureConnected network.connect with
    | (s, some error) => (s, .error error)
    | (s, none) =>
        let tid := s.client.nextTid
        let s := { s with
          client := { s.client with
            nextTid := s.client.nextTid + 1
            socket := s.client.socket.map (· ++ network.arrives) } }
        let s := s.await .write network.write.completes
        match network.write with
        | .pending => (s.disconnect, .error .Timeout)
        | .failed => (s.disconnect, .error .WriteFailed)
        | .written bytes =>
            if bytes ≠ (request.encode tid).length then (s.disconnect, .error .WriteFailed)
            else s.receive (request.context tid) network

inductive Event where
  | read (request : Request) (network : Network)
  | disconnect

/-- A call, from its start to its return. -/
def step (s : AsioClient) : Event → AsioClient
  | .read request network => { (s.readImpl request network).1 with calls := s.calls + 1 }
  | .disconnect => { s.disconnect with calls := s.calls + 1 }

/-! ## The client without its io_context -/

theorem client_ensureConnected (s : AsioClient) (outcome : ConnectOutcome) :
    match s.client.ensureConnected outcome with
    | .error error =>
        (s.ensureConnected outcome).2 = some error ∧ (s.ensureConnected outcome).1.client = s.client
    | .ok c => (s.ensureConnected outcome).2 = none ∧ (s.ensureConnected outcome).1.client = c := by
  rw [ensureConnected, Client.ensureConnected.eq_def]
  by_cases hup : (s.client.connected && s.client.socket.isSome) = true
  · rw [if_pos hup, if_pos hup]
    exact ⟨rfl, rfl⟩
  · rw [if_neg hup, if_neg hup]
    cases outcome with
    | connected => exact ⟨rfl, rfl⟩
    | unresolved => exact ⟨rfl, rfl⟩
    | refused => exact ⟨rfl, rfl⟩
    | pending => exact ⟨rfl, rfl⟩

theorem client_receive (s : AsioClient) (ctx : ResponseContext) (network : Network) :
    ((s.receive ctx network).1.client, (s.receive ctx network).2) =
      s.client.receive ctx network := by
  rw [receive, Client.receive]
  cases s.client.read kMbapHeaderSize network.header with
  | error failure => rfl
  | ok r =>
      obtain ⟨header, c⟩ := r
      dsimp only
      split
      next => rfl
      next =>
        cases c.read ((readBe16 header 4).toNat - 1) network.body with
        | error failure => rfl
        | ok r => rfl

/-- Without its io_context a call is the one of the client. -/
theorem client_readImpl (s : AsioClient) (request : Request) (network : Network) :
    ((s.readImpl request network).1.client, (s.readImpl request network).2) =
      s.client.readImpl request network := by
  rw [readImpl, Client.readImpl]
  split
  next => rfl
  next =>
    have hconnect := s.client_ensureConnected network.connect
    revert hconnect
    generalize s.ensureConnected network.connect = r
    obtain ⟨s', error⟩ := r
    cases s.client.ensureConnected network.connect with
    | error e =>
        rintro ⟨rfl, hclient⟩
        exact congrArg (·, _) hclient
    | ok c =>
        rintro ⟨rfl, rfl⟩
        dsimp only
        cases network.write with
        | pending => rfl
        | failed => rfl
        | written bytes =>
            dsimp only
            split
            next => rfl
            next => exact client_receive _ _ _

/-! ## What a call leaves -/

/-- So many handlers are outstanding, and what has run has run in the call that armed it. -/
structure Leaves (s : AsioClient) (call : Nat) (left : List Handler) : Prop where
  outstanding : s.io.outstanding = left
  calls : s.calls = call
  own : ∀ r ∈ s.ran, r.2.call = r.1

variable {s : AsioClient} {call : Nat} {left : List Handler}

theorem Leaves.withClient (h : s.Leaves call left) (c : Client) :
    ({ s with client := c } : AsioClient).Leaves call left :=
  ⟨h.outstanding, h.calls, h.own⟩

theorem Leaves.arm (h : s.Leaves call left) (operation : Operation) :
    (s.arm operation).Leaves call (left ++ [⟨call, operation⟩]) := by
  refine ⟨?_, h.calls, h.own⟩
  rw [AsioClient.arm, IoContext.outstanding_arm, h.outstanding, h.calls]

theorem Leaves.cancel (h : s.Leaves call left) : s.cancel.Leaves call left :=
  ⟨s.io.outstanding_cancel.trans h.outstanding, h.calls, h.own⟩

theorem Leaves.restart (h : s.Leaves call left) : s.restart.Leaves call left :=
  ⟨h.outstanding, h.calls, h.own⟩

theorem Leaves.disconnect (h : s.Leaves call left) : s.disconnect.Leaves call left :=
  h.cancel.restart.withClient _

/-- A run to the end takes what the call has armed. -/
theorem Leaves.runFor_true (h : s.Leaves call left) (hstopped : s.io.stopped = false)
    (hleft : ∀ handler ∈ left, handler.call = call) : (s.runFor true).Leaves call [] := by
  obtain ⟨htaken, hnone⟩ := s.io.runFor_true hstopped
  refine ⟨hnone, h.calls, fun r hr => ?_⟩
  rcases List.mem_append.mp hr with hr | hr
  · exact h.own r hr
  · obtain ⟨handler, hhandler, rfl⟩ := List.mem_map.mp hr
    rw [htaken, h.outstanding] at hhandler
    exact (hleft handler hhandler).trans h.calls.symm

/-- Nothing is queued and nothing completes. -/
theorem Leaves.runFor_false (h : s.Leaves call left) (hqueued : s.io.queued = []) :
    (s.runFor false).Leaves call left := by
  obtain ⟨htaken, hleft, -⟩ := s.io.runFor_false hqueued
  refine ⟨hleft.trans h.outstanding, h.calls, fun r hr => ?_⟩
  rw [AsioClient.runFor, htaken, List.map_nil, List.append_nil] at hr
  exact h.own r hr

theorem Leaves.queued (h : s.Leaves call []) : s.io.queued = [] :=
  (List.append_eq_nil_iff.mp h.outstanding).1

/-- An operation that is awaited alone leaves its handler if it does not complete. -/
theorem Leaves.await (h : s.Leaves call []) (operation : Operation) (completes : Bool) :
    (s.await operation completes).Leaves call (if completes then [] else [⟨call, operation⟩]) := by
  have harmed := (h.arm operation).restart
  cases completes with
  | true =>
      refine harmed.runFor_true rfl fun handler hhandler => ?_
      rw [List.mem_singleton.mp hhandler]
  | false => exact harmed.runFor_false h.queued

/-- A connect leaves nothing, however it ends. -/
theorem Leaves.ensureConnected (h : s.Leaves call []) (outcome : ConnectOutcome) :
    (s.ensureConnected outcome).1.Leaves call [] := by
  rw [AsioClient.ensureConnected]
  split
  next => exact h
  next =>
    have hclosed := h.cancel.restart
    have harmed := hclosed.arm .connect
    have hown : ∀ handler ∈ [] ++ [(⟨call, .connect⟩ : Handler)], handler.call = call := by
      intro handler hhandler
      rw [List.mem_singleton.mp hhandler]
    cases outcome with
    | unresolved => exact hclosed
    | refused => exact harmed.runFor_true rfl hown
    | connected => exact (harmed.runFor_true rfl hown).withClient _
    | pending =>
        have hrunning := ((s.cancel.restart.arm .connect).io.runFor_false hclosed.queued).2.2 rfl
          (List.append_ne_nil_of_right_ne_nil _ (List.cons_ne_nil _ _))
        exact (harmed.runFor_false hclosed.queued).cancel.runFor_true hrunning hown

end AsioClient

/-! ## Operations that do not complete -/

namespace Client

/-- The header, or a body that a call goes on to read, does not arrive in time. -/
inductive ReadStarves (c : Client) (network : Network) : Prop where
  | header (pending : c.read kMbapHeaderSize network.header = .error .pending)
  | body {header : Bytes} {c' : Client}
      (arrived : c.read kMbapHeaderSize network.header = .ok (header, c'))
      (length : ¬(readBe16 header 4 = 0 || kMaxLengthField < readBe16 header 4) = true)
      (pending : c'.read ((readBe16 header 4).toNat - 1) network.body = .error .pending)

/-- The client that has drawn a transaction id, and what arrives on its socket. -/
def requesting (c : Client) (network : Network) : Client :=
  { c with
    nextTid := c.nextTid + 1
    socket := c.socket.map (· ++ network.arrives) }

/-- A call that gets to write its request is not done with that in time, or starves when it
reads. -/
inductive Starves (c : Client) (request : Request) (network : Network) : Prop where
  | write {c' : Client}
      (valid : ¬(request.quantity = 0 || kMaxRegistersPerRead < request.quantity) = true)
      (connected : c.ensureConnected network.connect = .ok c')
      (pending : network.write = .pending)
  | read {c' : Client}
      (valid : ¬(request.quantity = 0 || kMaxRegistersPerRead < request.quantity) = true)
      (connected : c.ensureConnected network.connect = .ok c')
      (written : network.write = .written (request.encode c'.nextTid).length)
      (starves : (c'.requesting network).ReadStarves network)

variable {c c' : Client} {network : Network} {request : Request}

theorem readStarves_of_error {failure : ReadFailure}
    (h : c.read kMbapHeaderSize network.header = .error failure) :
    c.ReadStarves network ↔ failure = .pending := by
  constructor
  · intro hstarves
    cases hstarves with
    | header pending => exact Except.error.inj (h.symm.trans pending)
    | body arrived _ _ => cases h.symm.trans arrived
  · rintro rfl
    exact .header h

/-- Behind a header only the body can be missing. -/
theorem readStarves_of_header {header : Bytes}
    (h : c.read kMbapHeaderSize network.header = .ok (header, c')) :
    c.ReadStarves network ↔
      ¬(readBe16 header 4 = 0 || kMaxLengthField < readBe16 header 4) = true ∧
        c'.read ((readBe16 header 4).toNat - 1) network.body = .error .pending := by
  constructor
  · intro hstarves
    cases hstarves with
    | header pending => cases h.symm.trans pending
    | body arrived length pending =>
        obtain ⟨rfl, rfl⟩ := Prod.mk.inj (Except.ok.inj (h.symm.trans arrived))
        exact ⟨length, pending⟩
  · rintro ⟨length, pending⟩
    exact .body h length pending

theorem not_starves_of_error {error : IoError}
    (h : c.ensureConnected network.connect = .error error) : ¬c.Starves request network := by
  intro hstarves
  cases hstarves with
  | write _ connected _ => cases h.symm.trans connected
  | read _ connected _ _ => cases h.symm.trans connected

/-- Behind a connect only the write and what comes after it can starve. -/
theorem starves_of_connected
    (hvalid : ¬(request.quantity = 0 || kMaxRegistersPerRead < request.quantity) = true)
    (h : c.ensureConnected network.connect = .ok c') :
    c.Starves request network ↔
      network.write = .pending ∨
        network.write = .written (request.encode c'.nextTid).length ∧
          (c'.requesting network).ReadStarves network := by
  constructor
  · intro hstarves
    cases hstarves with
    | write _ _ pending => exact Or.inl pending
    | read _ connected written starves =>
        obtain rfl := Except.ok.inj (h.symm.trans connected)
        exact Or.inr ⟨written, starves⟩
  · rintro (pending | ⟨written, starves⟩)
    · exact .write hvalid h pending
    · exact .read hvalid h written starves

end Client

namespace AsioClient

variable {s : AsioClient} {call : Nat}

/-- A call leaves a handler if it starves, and nothing if it does not. -/
def LeavesIf (s : AsioClient) (call : Nat) (starves : Prop) : Prop :=
  (∃ operation, s.Leaves call [⟨call, operation⟩]) ∧ starves ∨ s.Leaves call [] ∧ ¬starves

theorem LeavesIf.congr {p q : Prop} (h : s.LeavesIf call p) (hiff : p ↔ q) :
    s.LeavesIf call q := by
  rwa [LeavesIf, ← hiff]

/-- A call that gives up on an operation leaves its handler if it has not completed. -/
theorem Leaves.giveUp (h : s.Leaves call []) (operation : Operation) (completes : Bool) :
    (s.await operation completes).disconnect.LeavesIf call (completes = false) := by
  have hawait := (h.await operation completes).disconnect
  cases completes with
  | true => exact Or.inr ⟨hawait, Bool.noConfusion⟩
  | false => exact Or.inl ⟨⟨operation, hawait⟩, rfl⟩

theorem Leaves.receive (h : s.Leaves call []) (ctx : ResponseContext) (network : Network) :
    (s.receive ctx network).1.LeavesIf call (s.client.ReadStarves network) := by
  rw [AsioClient.receive]
  cases hread : s.client.read kMbapHeaderSize network.header with
  | error failure =>
      rw [Client.readStarves_of_error hread]
      exact (h.giveUp .header _).congr failure.completes_eq_false
  | ok r =>
      obtain ⟨header, c⟩ := r
      have hheader := (h.await .header true).withClient c
      rw [Client.readStarves_of_header hread]
      dsimp only
      split
      next hlength => exact Or.inr ⟨hheader.disconnect, fun hstarves => hstarves.1 hlength⟩
      next hlength =>
        rw [and_iff_right hlength]
        cases c.read ((readBe16 header 4).toNat - 1) network.body with
        | error failure =>
            rw [Except.error.injEq]
            exact (hheader.giveUp .body _).congr failure.completes_eq_false
        | ok r => exact Or.inr ⟨(hheader.await .body true).withClient _, by rintro ⟨⟩⟩

theorem Leaves.readImpl (h : s.Leaves call []) (request : Request) (network : Network) :
    (s.readImpl request network).1.LeavesIf call (s.client.Starves request network) := by
  rw [AsioClient.readImpl]
  split
  next hinvalid =>
    refine Or.inr ⟨h, fun hstarves => ?_⟩
    cases hstarves with
    | write hvalid _ _ => exact hvalid hinvalid
    | read hvalid _ _ _ => exact hvalid hinvalid
  next hvalid =>
    have hconnect := s.client_ensureConnected network.connect
    have hleaves := h.ensureConnected network.connect
    revert hconnect hleaves
    generalize s.ensureConnected network.connect = r
    obtain ⟨s', error⟩ := r
    intro hconnect hleaves
    cases hopened : s.client.ensureConnected network.connect with
    | error e =>
        rw [hopened] at hconnect
        obtain ⟨rfl, -⟩ := hconnect
        exact Or.inr ⟨hleaves, Client.not_starves_of_error hopened⟩
    | ok c =>
        rw [hopened] at hconnect
        obtain ⟨rfl, rfl⟩ := hconnect
        have hrequesting := hleaves.withClient (s'.client.requesting network)
        rw [Client.starves_of_connected hvalid hopened]
        dsimp only
        rw [← Client.requesting]
        cases network.write with
        | pending => exact (hrequesting.giveUp .write false).congr (by simp)
        | failed => exact (hrequesting.giveUp .write true).congr (by simp)
        | written bytes =>
            rw [or_iff_right (by rintro ⟨⟩), WriteOutcome.written.injEq]
            dsimp only
            split
            next hshort =>
              exact Or.inr ⟨(hrequesting.await .write true).disconnect, fun h => hshort h.1⟩
            next hall =>
              rw [and_iff_right (not_not.mp hall)]
              exact (hrequesting.await .write true).receive _ network

/-! ## Runs -/

/-- When a call returns none of its handlers is outstanding, and none of another call has run in
it. -/
structure NothingOutlives (s : AsioClient) (e : Event) : Prop where
  none_left : ∀ handler ∈ (s.step e).io.outstanding, handler.call ≠ s.calls
  own : ∀ r ∈ (s.step e).ran, r.2.call = r.1

/-- No operation behind the connect fails to complete in its time. -/
def Completes (s : AsioClient) : Event → Prop
  | .read request network => ¬s.client.Starves request network
  | .disconnect => True

/-- Between calls nothing is outstanding. -/
def Idle (s : AsioClient) : Prop := s.Leaves s.calls []

theorem nothingOutlives_iff {e : Event} (h : s.Idle) :
    (s.NothingOutlives e ↔ s.Completes e) ∧ (s.Completes e → (s.step e).Idle) := by
  -- The next call has the next number.
  have hidle : ∀ {s' : AsioClient}, s'.Leaves s.calls [] →
      ({ s' with calls := s.calls + 1 } : AsioClient).Idle :=
    fun hleaves => ⟨hleaves.outstanding, rfl, hleaves.own⟩
  have hnothing : (s.step e).Idle → s.NothingOutlives e := by
    intro hleaves
    refine ⟨fun handler hhandler => ?_, hleaves.own⟩
    rw [hleaves.outstanding] at hhandler
    cases hhandler
  cases e with
  | disconnect =>
      have hleaves := hidle (Leaves.disconnect h)
      exact ⟨iff_of_true (hnothing hleaves) trivial, fun _ => hleaves⟩
  | read request network =>
      rcases Leaves.readImpl h request network with ⟨⟨operation, hleft⟩, hstarves⟩ | ⟨hnone, hfed⟩
      · refine ⟨iff_of_false (fun houtlives => ?_) (not_not_intro hstarves),
          fun hcompletes => absurd hstarves hcompletes⟩
        refine houtlives.none_left ⟨s.calls, operation⟩ ?_ rfl
        rw [show (s.step (.read request network)).io = (s.readImpl request network).1.io from rfl,
          hleft.outstanding]
        exact List.mem_cons_self
      · exact ⟨iff_of_true (hnothing (hidle hnone)) hfed, fun _ => hidle hnone⟩

/-- In a run no handler outlives its call exactly as long as every write and every read completes
in its time. -/
theorem outlives_iff (events : List Event) :
    Runs.Along step NothingOutlives {} events ↔ Runs.Along step Completes {} events := by
  have hidle : Idle {} := ⟨rfl, rfl, nofun⟩
  exact Runs.along_iff hidle (fun _ _ h => (nothingOutlives_iff h).1)
    fun _ _ h => (nothingOutlives_iff h).2

/-- A write that does not complete, and another call. -/
def lateWrite : List Event :=
  [.read (.readHoldingRegisters 1 0 1) { write := .pending },
    .read (.readHoldingRegisters 1 0 1) { write := .failed }]

/-- The second call runs the handler of the first. -/
theorem outlives_lateWrite :
    (lateWrite.foldl step {}).ran =
        [(0, ⟨0, .connect⟩), (1, ⟨0, .write⟩), (1, ⟨1, .connect⟩), (1, ⟨1, .write⟩)] ∧
      ¬Runs.Along step NothingOutlives {} lateWrite := by
  refine ⟨by decide, fun h => ?_⟩
  exact h.1.none_left ⟨0, .write⟩ (by decide) rfl

end AsioClient

end Modbus
