import IndustrialHmi.Integration.ModbusReader
import IndustrialHmi.Integration.ModbusPdu

/-!
# The Modbus client

One socket to one slave, and one request at a time.  A call connects when the socket is
down, writes its request and reads a frame: the header, and then as many bytes as the
header announces.  What the network does during a call is a parameter.

A call that misses bytes, or reads a length that no frame has, closes the socket.  A call
that reads a frame and refuses it leaves the socket open (`Client.receive`).
-/

namespace Modbus

/-! ## Requests -/

def Request.functionCode : Request → FunctionCode
  | .readHoldingRegisters _ _ _ => .ReadHoldingRegisters
  | .readInputRegisters _ _ _ => .ReadInputRegisters

def Request.unitId : Request → BitVec 8
  | .readHoldingRegisters unitId _ _ => unitId
  | .readInputRegisters unitId _ _ => unitId

def Request.address : Request → BitVec 16
  | .readHoldingRegisters _ address _ => address
  | .readInputRegisters _ address _ => address

def Request.quantity : Request → BitVec 16
  | .readHoldingRegisters _ _ quantity => quantity
  | .readInputRegisters _ _ quantity => quantity

/-- The bytes of a request under a transaction id. -/
def Request.encode (request : Request) (tid : BitVec 16) : Bytes :=
  encodeReadRequest tid request.unitId request.functionCode request.address request.quantity

/-- What the response to a request is checked against. -/
def Request.context (request : Request) (tid : BitVec 16) : ResponseContext where
  expectedTransactionId := tid
  expectedUnitId := request.unitId
  expectedFunctionCode := request.functionCode
  expectedQuantity := request.quantity

/-! ## The network during a call -/

inductive ConnectOutcome where
  | connected
  | unresolved
  | refused
  /-- Nothing has happened when the time is up. -/
  | pending

inductive WriteOutcome where
  | written (bytes : Nat)
  | failed
  | pending

/-- How a read ends that does not complete. -/
inductive ReadFailure where
  | pending
  | eof
  | failed

def ReadFailure.error : ReadFailure → IoError
  | .pending => .Timeout
  | .eof => .Disconnected
  | .failed => .ReadFailed

structure Network where
  connect : ConnectOutcome := .connected
  write : WriteOutcome
  /-- The bytes that arrive on the connection during the call. -/
  arrives : Bytes := []
  header : Option ReadFailure := none
  body : Option ReadFailure := none

/-! ## The client -/

structure Client where
  nextTid : BitVec 16 := 1
  connected : Bool := false
  /-- What has arrived on the open socket and is not read yet. -/
  socket : Option Bytes := none
  lastExceptionCode : Option ExceptionCode := none

namespace Client

def disconnect (c : Client) : Client := { c with connected := false, socket := none }

/-- A socket that fails to connect is not used: the next call closes it first. -/
def ensureConnected (c : Client) (outcome : ConnectOutcome) : Except IoError Client :=
  if c.connected && c.socket.isSome then .ok c
  else
    match outcome with
    | .unresolved => .error .ConnectionFailed
    | .pending => .error .Timeout
    | .refused => .error .ConnectionFailed
    | .connected => .ok { c with connected := true, socket := some [] }

/-- Reads so many bytes exactly. -/
def read (c : Client) (count : Nat) (failure : Option ReadFailure) :
    Except ReadFailure (Bytes × Client) :=
  match failure with
  | some failure => .error failure
  | none =>
      let unread := c.socket.getD []
      if unread.length < count then .error .pending
      else .ok (unread.take count, { c with socket := some (unread.drop count) })

/-- The ceiling on the length field: the unit id and the largest PDU. -/
def kMaxLengthField : BitVec 16 := BitVec.ofNat 16 (1 + kMaxPduSize)

/-- The end of a call, when a frame has been read and decoded. -/
def settle (c : Client) :
    Except DecodeError DecodedReadResponse → Client × Except IoError (List (BitVec 16))
  -- the frame may have been corrupted in transit: the socket stays open
  | .error _ => (c, .error .DecodeFailed)
  | .ok payload =>
      if payload.registers.isEmpty then
        ({ c with lastExceptionCode := some payload.exceptionCode }, .error .ServerException)
      else ({ c with lastExceptionCode := none }, .ok payload.registers)

/-- The response is read and decoded. -/
def receive (c : Client) (ctx : ResponseContext) (network : Network) :
    Client × Except IoError (List (BitVec 16)) :=
  match c.read kMbapHeaderSize network.header with
  | .error failure => (c.disconnect, .error failure.error)
  | .ok (header, c) =>
      let length := readBe16 header 4
      if length = 0 || kMaxLengthField < length then (c.disconnect, .error .DecodeFailed)
      else
        match c.read (length.toNat - 1) network.body with
        | .error failure => (c.disconnect, .error failure.error)
        | .ok (body, c) => c.settle (decodeReadResponse (header ++ body) ctx)

def readImpl (c : Client) (request : Request) (network : Network) :
    Client × Except IoError (List (BitVec 16)) :=
  if request.quantity = 0 || kMaxRegistersPerRead < request.quantity then
    (c, .error .InvalidQuantity)
  else
    match c.ensureConnected network.connect with
    | .error error => (c, .error error)
    | .ok c =>
        let tid := c.nextTid
        let c := { c with
          nextTid := c.nextTid + 1
          socket := c.socket.map (· ++ network.arrives) }
        match network.write with
        | .pending => (c.disconnect, .error .Timeout)
        | .failed => (c.disconnect, .error .WriteFailed)
        | .written bytes =>
            if bytes ≠ (request.encode tid).length then (c.disconnect, .error .WriteFailed)
            else c.receive (request.context tid) network

/-! ## Frames on the socket -/

theorem read_append {c : Client} {before rest : Bytes} (h : c.socket = some (before ++ rest)) :
    c.read before.length none = .ok (before, { c with socket := some rest }) := by
  have hlong : ¬ (before ++ rest).length < before.length := by
    rw [List.length_append]
    omega
  simp only [read, h, Option.getD_some, if_neg hlong, List.take_left, List.drop_left]

/-- A frame is read to its end, whatever it is. -/
theorem receive_frame {c : Client} {adu : Adu} {rest : Bytes}
    (hsocket : c.socket = some (adu.bytes ++ rest)) (ctx : ResponseContext) {network : Network}
    (hheader : network.header = none) (hbody : network.body = none) :
    c.receive ctx network =
      ({ c with socket := some rest } : Client).settle (decodeReadResponse adu.bytes ctx) := by
  have hlength := adu.readBe16_length []
  rw [List.append_nil] at hlength
  have hbounded := adu.bounded
  have hpositive : readBe16 adu.header 4 ≠ 0 := by
    intro h
    have hzero : (0 : BitVec 16).toNat = 0 := rfl
    rw [h] at hlength
    omega
  have hceiling : ¬ kMaxLengthField < readBe16 adu.header 4 := by
    rw [BitVec.lt_def, hlength, kMaxLengthField]
    simp only [kMaxPduSize, BitVec.toNat_ofNat] at hbounded ⊢
    omega
  rw [Adu.bytes, List.append_assoc] at hsocket
  have hread := read_append hsocket
  rw [adu.length_header] at hread
  have hbodyLength : (readBe16 adu.header 4).toNat - 1 = adu.pdu.length := by omega
  have hreadBody := read_append (c := { c with socket := some (adu.pdu ++ rest) }) rfl
  simp only [receive, hheader, hread, hbody, hpositive, hceiling, hbodyLength, hreadBody,
    decide_false, Bool.or_false, Bool.false_eq_true, if_false, Adu.bytes]

/-! ## Whole frames -/

/-- The bytes are frames, one after the other. -/
def Frames (bytes : Bytes) : Prop := ∃ adus : List Adu, bytes = adus.flatMap Adu.bytes

theorem Frames.append {bytes bytes' : Bytes} (h : Frames bytes) (h' : Frames bytes') :
    Frames (bytes ++ bytes') := by
  obtain ⟨adus, rfl⟩ := h
  obtain ⟨adus', rfl⟩ := h'
  exact ⟨adus ++ adus', List.flatMap_append.symm⟩

/-- The socket is closed, or the next byte is the first of a frame. -/
def AtBoundary (c : Client) : Prop := ∀ unread, c.socket = some unread → Frames unread

theorem atBoundary_disconnect (c : Client) : AtBoundary c.disconnect :=
  fun _ h => absurd h.symm (Option.some_ne_none _)

theorem socket_settle (c : Client) (decoded : Except DecodeError DecodedReadResponse) :
    (c.settle decoded).1.socket = c.socket := by
  cases decoded with
  | error _ => rfl
  | ok payload =>
      rw [settle]
      split <;> rfl

theorem atBoundary_receive {c : Client} (hopen : c.socket ≠ none) (h : AtBoundary c)
    (ctx : ResponseContext) (network : Network) : AtBoundary (c.receive ctx network).1 := by
  obtain ⟨unread, hunread⟩ := Option.ne_none_iff_exists'.mp hopen
  obtain ⟨adus, rfl⟩ := h unread hunread
  cases hheader : network.header with
  | some failure =>
      rw [receive, hheader]
      exact atBoundary_disconnect c
  | none =>
      cases adus with
      | nil =>
          have hstarved : c.read kMbapHeaderSize none = .error .pending := by
            simp [read, hunread, kMbapHeaderSize]
          rw [receive, hheader, hstarved]
          exact atBoundary_disconnect c
      | cons adu adus =>
          rw [List.flatMap_cons] at hunread
          cases hbody : network.body with
          | none =>
              rw [receive_frame hunread ctx hheader hbody]
              intro unread hsocket
              rw [socket_settle, Option.some.injEq] at hsocket
              exact ⟨adus, hsocket.symm⟩
          | some failure =>
              rw [Adu.bytes, List.append_assoc] at hunread
              have hread := read_append hunread
              rw [adu.length_header] at hread
              simp only [receive, hheader, hread, hbody]
              split
              · exact atBoundary_disconnect _
              · exact atBoundary_disconnect _

/-- The socket of a connected client is the old one or a new one. -/
theorem frames_ensureConnected {c opened : Client} (h : AtBoundary c) {outcome : ConnectOutcome}
    (hconnect : c.ensureConnected outcome = .ok opened) :
    ∃ unread, opened.socket = some unread ∧ Frames unread := by
  by_cases hconnected : c.connected && c.socket.isSome
  · simp only [ensureConnected, hconnected, if_true] at hconnect
    obtain rfl := Except.ok.inj hconnect
    rw [Bool.and_eq_true] at hconnected
    obtain ⟨unread, hunread⟩ := Option.isSome_iff_exists.mp hconnected.2
    exact ⟨unread, hunread, h unread hunread⟩
  · simp only [ensureConnected, hconnected] at hconnect
    cases outcome with
    | connected =>
        obtain rfl := Except.ok.inj hconnect
        exact ⟨[], rfl, [], rfl⟩
    | unresolved => cases hconnect
    | refused => cases hconnect
    | pending => cases hconnect

/-- However a call ends, the next byte on an open socket is the first of a frame. -/
theorem atBoundary_readImpl {c : Client} (h : AtBoundary c) (request : Request)
    {network : Network} (harrives : Frames network.arrives) :
    AtBoundary (c.readImpl request network).1 := by
  rw [readImpl]
  split
  next => exact h
  next =>
    cases hconnect : c.ensureConnected network.connect with
    | error _ => exact h
    | ok opened =>
        obtain ⟨unread, hunread, hframes⟩ := frames_ensureConnected h hconnect
        cases network.write with
        | pending => exact atBoundary_disconnect _
        | failed => exact atBoundary_disconnect _
        | written bytes =>
            simp only [hunread, Option.map_some]
            split
            · exact atBoundary_disconnect _
            · refine atBoundary_receive (Option.some_ne_none _) (fun unread' hunread' => ?_) _ _
              rw [← Option.some.inj hunread']
              exact hframes.append harrives

/-- A client after some calls. -/
def after (c : Client) (calls : List (Request × Network)) : Client :=
  calls.foldl (fun c call => (c.readImpl call.1 call.2).1) c

/-- In every run on a slave that sends whole frames. -/
theorem atBoundary_after {c : Client} (h : AtBoundary c) {calls : List (Request × Network)}
    (harrives : ∀ call ∈ calls, Frames call.2.arrives) : AtBoundary (c.after calls) := by
  induction calls generalizing c with
  | nil => exact h
  | cons call calls ih =>
      exact ih (atBoundary_readImpl h call.1 (harrives call List.mem_cons_self))
        fun call' hcall' => harrives call' (List.mem_cons_of_mem call hcall')

end Client

end Modbus
