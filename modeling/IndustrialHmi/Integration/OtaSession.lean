import IndustrialHmi.Theory.Transducer
import IndustrialHmi.Integration.FlashFrame

/-!
# The OTA update session

The host side of the UART flash protocol, as pure logic: every call takes an
event and the time, and returns the bytes to send.

`Context` is everything the transition table reads and writes.  `otaTable` is
the table, row by row in the order of the source: in this state, on this event,
if this guard holds, do this action and go there.  `dispatch` runs it, and makes
an event that no row takes a protocol error.  `OtaSession.start`, `onFrame` and
`onTick` are the public calls, and `apply` puts them behind one type `Op`, so
that a run of a session is a list of operations.

Times and durations are integers in one unit.
-/

namespace Ota

open LittleEndian Flash

/-! ## Codes and constants -/

/-- Message codes, section 4 of the protocol. -/
def kInfoReq : UInt8 := 0x01
def kBegin : UInt8 := 0x02
def kData : UInt8 := 0x03
def kCommit : UInt8 := 0x04
def kConfirm : UInt8 := 0x05
def kInfo : UInt8 := 0x81
def kAck : UInt8 := 0x82
def kNak : UInt8 := 0x83

/-- The `NAK` code for bytes damaged on the wire. -/
def kNakBadCrc : UInt8 := 0x01

/-- `INFO` payload: version u32, active bank u8, state u8. -/
def kInfoPayloadBytes : Nat := 6
def kInfoVersionAt : Nat := 0
def kInfoStateAt : Nat := 5
def kStateConfirmed : UInt8 := 0
def kStateTrial : UInt8 := 1

/-- Image bytes per `DATA` frame, and the alignment the flash needs. -/
def kDataChunkBytes : Nat := 256
def kFlashWordBytes : Nat := 8
/-- Padding for the last chunk. -/
def kErasedByte : UInt8 := 0xFF

def kByteMask : UInt32 := 0xFF

/-- How far one update has got. -/
inductive OtaStage where
  | idle | probing | beginning | sending | committing
  | rebooting | rechecking | confirming | done | failed
deriving DecidableEq, Repr

/-- Why an update stopped. -/
inductive OtaFailure where
  | none | boardRefused | noAnswer | protocolError | wrongVersion
deriving DecidableEq, Repr

/-- How long to wait for each answer, plus how often to resend. -/
structure Timing where
  answer : Int := 2000
  beginAnswer : Int := 2025
  reboot : Int := 500
  resends : Int := 3
deriving DecidableEq, Repr

/-! ## 32-bit fields -/

/-- Append a 32-bit value, low byte first. -/
def appendLittleEndian32 (out : Bytes) (value : UInt32) : Bytes :=
  ([0, 8, 16, 24] : List UInt32).foldl
    (fun out shift => out ++ [((value >>> shift) &&& kByteMask).toUInt8]) out

/-- The 32-bit value in the first four bytes at `at_`, low byte first. -/
def readLittleEndian32 (at_ : Bytes) : UInt32 :=
  [0, 1, 2, 3].foldl (fun value index =>
    value ||| ((at_.getD index 0).toUInt32 <<< (UInt32.ofNat index * kBitsPerByte))) 0

theorem appendLittleEndian32_eq (out : Bytes) (value : UInt32) :
    appendLittleEndian32 out value = out ++ leBytes 4 value.toNat := by
  have hbyte : ∀ (shift : UInt32) (d : Nat), 2 ^ (shift.toNat % 32) = d →
      ((value >>> shift) &&& kByteMask).toUInt8 = UInt8.ofNat (value.toNat / d) := by
    intro shift d hd
    apply UInt8.toNat_inj.mp
    simp [kByteMask, and_255, Nat.shiftRight_eq_div_pow, hd]
  have h0 := hbyte 0 1 rfl
  have h8 := hbyte 8 256 rfl
  have h16 := hbyte 16 (256 * 256) rfl
  have h24 := hbyte 24 (256 * 256 * 256) rfl
  simp only [appendLittleEndian32, List.foldl_cons, List.foldl_nil, h0, h8, h16, h24, leBytes,
    Nat.div_one, Nat.div_div_eq_div_mul, List.append_assoc]
  rfl

/-- One turn of the loop of `readLittleEndian32` adds its byte above the ones read so far. -/
theorem toNat_or_byte {value shift : UInt32} {k : Nat} (b : UInt8) (hshift : shift.toNat = k)
    (hk : k ≤ 24) (hvalue : value.toNat < 2 ^ k) :
    (value ||| (b.toUInt32 <<< shift)).toNat = value.toNat + 2 ^ k * b.toNat := by
  have hb : b.toNat < 2 ^ 8 := b.toNat_lt
  have hfits : b.toNat <<< k < 2 ^ 32 := by
    calc b.toNat <<< k = b.toNat * 2 ^ k := Nat.shiftLeft_eq _ _
      _ < 2 ^ 8 * 2 ^ k := Nat.mul_lt_mul_of_pos_right hb (Nat.two_pow_pos k)
      _ = 2 ^ (8 + k) := (Nat.pow_add 2 8 k).symm
      _ ≤ 2 ^ 32 := Nat.pow_le_pow_right (by decide) (by omega)
  rw [UInt32.toNat_or, UInt32.toNat_shiftLeft, UInt8.toNat_toUInt32, hshift,
    Nat.mod_eq_of_lt (show k < 32 by omega), Nat.mod_eq_of_lt hfits,
    or_shiftLeft_eq_add _ hvalue]

theorem readLittleEndian32_toNat (at_ : Bytes) :
    (readLittleEndian32 at_).toNat =
      leNat [at_.getD 0 0, at_.getD 1 0, at_.getD 2 0, at_.getD 3 0] := by
  have h0 := (at_.getD 0 0).toNat_lt
  have h1 := (at_.getD 1 0).toNat_lt
  have h2 := (at_.getD 2 0).toNat_lt
  have e0 := toNat_or_byte (at_.getD 0 0) (show (UInt32.ofNat 0 * kBitsPerByte).toNat = 0 from rfl)
    (by decide) (show (0 : UInt32).toNat < 2 ^ 0 by decide)
  have e1 := toNat_or_byte (at_.getD 1 0) (show (UInt32.ofNat 1 * kBitsPerByte).toNat = 8 from rfl)
    (by decide) (by rw [e0]; simp only [UInt32.toNat_zero]; omega)
  have e2 := toNat_or_byte (at_.getD 2 0) (show (UInt32.ofNat 2 * kBitsPerByte).toNat = 16 from rfl)
    (by decide) (by rw [e1, e0]; simp only [UInt32.toNat_zero]; omega)
  have e3 := toNat_or_byte (at_.getD 3 0) (show (UInt32.ofNat 3 * kBitsPerByte).toNat = 24 from rfl)
    (by decide) (by rw [e2, e1, e0]; simp only [UInt32.toNat_zero]; omega)
  simp only [readLittleEndian32, List.foldl_cons, List.foldl_nil]
  rw [e3, e2, e1, e0]
  simp only [UInt32.toNat_zero, leNat]
  omega

/-- A 32-bit field is read off the bytes that spell it. -/
theorem readLittleEndian32_leBytes (value : UInt32) (zs : Bytes) :
    readLittleEndian32 (leBytes 4 value.toNat ++ zs) = value := by
  apply UInt32.toNat_inj.mp
  rw [readLittleEndian32_toNat]
  exact leNat_leBytes (w := 4) value.toNat_lt

/-! ## The context -/

/-- Everything the transition table reads and writes. -/
structure Context where
  image : Bytes
  version : UInt32
  timing : Timing
  /-- Set before each dispatch. -/
  now : Int := 0
  /-- What the session wants sent. -/
  outbox : Bytes := []
  /-- The frame waiting for an answer, kept for a resend. -/
  inFlight : Bytes := []
  seq : UInt16 := 0
  resends : Int := 0
  /-- How long the frame in flight is given. -/
  waitFor : Int := 0
  deadline : Int := 0
  /-- True while waiting out the board's reset. -/
  waitingOut : Bool := false
  /-- Image bytes in the `DATA` frame in flight, padding excluded. -/
  chunkBytes : Nat := 0
  sentBytes : Nat := 0
  boardVersion : UInt32 := 0
  boardState : UInt8 := kStateConfirmed
  alreadyUpToDate : Bool := false
  failure : OtaFailure := .none
  nakCode : UInt8 := 0
deriving DecidableEq, Repr

/-- Build a frame with the next number, keep it for a resend and put it out. -/
def Context.send (c : Context) (type : UInt8) (payload : Payload) (within : Int) : Context :=
  let seq := c.seq + 1
  let frame : WireFrame := ⟨{ type := type, seq := seq, payload := payload.1 }, payload.2⟩
  { c with
    seq := seq
    inFlight := frame.bytes
    resends := 0
    waitFor := within
    deadline := c.now + within
    waitingOut := false
    outbox := frame.bytes }

def Context.resend (c : Context) : Context :=
  { c with resends := c.resends + 1, deadline := c.now + c.waitFor, outbox := c.inFlight }

def Context.stopWith (c : Context) (why : OtaFailure) (code : UInt8) : Context :=
  { c with failure := why, nakCode := code, inFlight := [], outbox := [] }

/-- Pad the image bytes behind the offset to whole flash words. -/
def padFlashWord (payload : Bytes) : Bytes :=
  if (payload.length - 4) % kFlashWordBytes ≠ 0 then padFlashWord (payload ++ [kErasedByte])
  else payload
termination_by (kFlashWordBytes - (payload.length - 4) % kFlashWordBytes) % kFlashWordBytes
decreasing_by
  simp only [kFlashWordBytes, List.length_append, List.length_singleton] at *
  omega

/-- Padding bytes behind `n` image bytes. -/
def paddingBytes (n : Nat) : Nat := (kFlashWordBytes - n % kFlashWordBytes) % kFlashWordBytes

theorem padFlashWord_eq (payload : Bytes) (h : 4 ≤ payload.length) :
    padFlashWord payload =
      payload ++ List.replicate (paddingBytes (payload.length - 4)) kErasedByte := by
  fun_induction padFlashWord payload with
  | case1 payload hmod ih =>
      have hcount : paddingBytes (payload.length - 4) =
          paddingBytes ((payload ++ [kErasedByte]).length - 4) + 1 := by
        simp only [paddingBytes, kFlashWordBytes, List.length_append, List.length_singleton] at *
        omega
      have hle : 4 ≤ (payload ++ [kErasedByte]).length := by
        rw [List.length_append]
        omega
      rw [ih hle, hcount, List.replicate_succ, List.append_assoc]
      rfl
  | case2 payload hmod =>
      have hcount : paddingBytes (payload.length - 4) = 0 := by
        simp only [paddingBytes, kFlashWordBytes] at *
        omega
      rw [hcount]
      exact (List.append_nil payload).symm

/-- The payload of the `DATA` frame for `chunkBytes` image bytes at `sentBytes`. -/
def dataPayload (image : Bytes) (sentBytes chunkBytes : Nat) : Bytes :=
  padFlashWord (appendLittleEndian32 [] (UInt32.ofNat sentBytes) ++
    (image.drop sentBytes).take chunkBytes)

theorem dataPayload_eq (image : Bytes) (sentBytes chunkBytes : Nat) :
    dataPayload image sentBytes chunkBytes =
      leBytes 4 (UInt32.ofNat sentBytes).toNat ++ (image.drop sentBytes).take chunkBytes ++
        List.replicate (paddingBytes ((image.drop sentBytes).take chunkBytes).length)
          kErasedByte := by
  have hlen : (leBytes 4 (UInt32.ofNat sentBytes).toNat ++
      (image.drop sentBytes).take chunkBytes).length
      = 4 + ((image.drop sentBytes).take chunkBytes).length := by
    rw [List.length_append, leBytes_length]
  rw [dataPayload, appendLittleEndian32_eq, List.nil_append,
    padFlashWord_eq _ (by rw [hlen]; omega), hlen, Nat.add_sub_cancel_left]

theorem dataPayload_fits (image : Bytes) (sentBytes : Nat) {chunkBytes : Nat}
    (h : chunkBytes ≤ kDataChunkBytes) :
    (dataPayload image sentBytes chunkBytes).length ≤ kFlashMaxPayloadBytes := by
  have hchunk : ((image.drop sentBytes).take chunkBytes).length ≤ chunkBytes :=
    List.length_take_le _ _
  rw [dataPayload_eq, List.length_append, List.length_append, leBytes_length,
    List.length_replicate]
  simp only [paddingBytes, kFlashWordBytes, kFlashMaxPayloadBytes, kDataChunkBytes] at *
  omega

def Context.sendDataChunk (c : Context) : Context :=
  let remaining := c.image.length - c.sentBytes
  let chunkBytes := min kDataChunkBytes remaining
  { c with chunkBytes := chunkBytes }.send kData
    ⟨dataPayload c.image c.sentBytes chunkBytes,
      dataPayload_fits c.image c.sentBytes (Nat.min_le_left _ _)⟩ c.timing.answer

/-! ## Events, guards and actions -/

/-- What an `INFO` frame reports. -/
structure EvInfo where
  version : UInt32
  state : UInt8
deriving DecidableEq, Repr

inductive Event where
  | start
  | ack
  | info (e : EvInfo)
  | nak (code : UInt8)
  | timeout
  | rebootDone
deriving DecidableEq, Repr

def kHasImage (c : Context) : Bool := !c.image.isEmpty
def kNoImage (c : Context) : Bool := c.image.isEmpty
def kIsConfirmedTarget (c : Context) (e : EvInfo) : Bool :=
  e.version == c.version && e.state == kStateConfirmed
def kIsTrialTarget (c : Context) (e : EvInfo) : Bool :=
  e.version == c.version && e.state == kStateTrial
def kNeedsUpdate (c : Context) (e : EvInfo) : Bool := e.version != c.version
def kIsTargetVersion (c : Context) (e : EvInfo) : Bool := e.version == c.version
def kIsOtherVersion (c : Context) (e : EvInfo) : Bool := e.version != c.version
def kMoreToSend (c : Context) : Bool := c.sentBytes + c.chunkBytes < c.image.length
def kAllSent (c : Context) : Bool := c.sentBytes + c.chunkBytes ≥ c.image.length
def kCanResend (c : Context) : Bool := c.resends < c.timing.resends
def kDamagedAndCanResend (c : Context) (code : UInt8) : Bool :=
  code == kNakBadCrc && c.resends < c.timing.resends
def kRefusedOrSpent (c : Context) (code : UInt8) : Bool :=
  code != kNakBadCrc || c.resends ≥ c.timing.resends

/-- The payload of a message that carries nothing. -/
def emptyPayload : Payload := ⟨[], by decide⟩

/-- The payload of `BEGIN`: size, CRC-32 and version of the image. -/
def beginPayload (image : Bytes) (version : UInt32) : Payload :=
  ⟨appendLittleEndian32 (appendLittleEndian32
      (appendLittleEndian32 [] (UInt32.ofNat image.length)) (crc32IsoHdlc image)) version, by
    simp only [appendLittleEndian32_eq, List.length_append, leBytes_length, List.length_nil,
      kFlashMaxPayloadBytes]
    decide⟩

def kSendInfoReq (c : Context) : Context := c.send kInfoReq emptyPayload c.timing.answer
def kSendBegin (c : Context) (e : EvInfo) : Context :=
  { c with boardVersion := e.version, boardState := e.state }.send kBegin
    (beginPayload c.image c.version) c.timing.beginAnswer
def kSendFirstChunk (c : Context) : Context :=
  { c with sentBytes := 0, chunkBytes := 0 }.sendDataChunk
/-- An `ACK` means the bytes reached flash, so progress moves only here. -/
def kAckChunkAndSendNext (c : Context) : Context :=
  { c with sentBytes := c.sentBytes + c.chunkBytes }.sendDataChunk
def kAckChunkAndCommit (c : Context) : Context :=
  { c with sentBytes := c.sentBytes + c.chunkBytes, chunkBytes := 0 }.send kCommit emptyPayload
    c.timing.answer
/-- The board resets itself, so nothing is sent into it until that is over. -/
def kWaitOutReboot (c : Context) : Context :=
  { c with inFlight := [], outbox := [], waitingOut := true, deadline := c.now + c.timing.reboot }
def kSendConfirm (c : Context) (e : EvInfo) : Context :=
  { c with boardVersion := e.version, boardState := e.state }.send kConfirm emptyPayload
    c.timing.answer
def kFinish (c : Context) : Context := { c with inFlight := [], outbox := [] }
def kFinishUpToDate (c : Context) (e : EvInfo) : Context :=
  { c with
    boardVersion := e.version
    boardState := e.state
    alreadyUpToDate := true
    inFlight := []
    outbox := [] }
def kResendInFlight (c : Context) : Context := c.resend
def kFailEmptyImage (c : Context) : Context := c.stopWith .protocolError 0
def kFailRefused (c : Context) (code : UInt8) : Context := c.stopWith .boardRefused code
def kFailSilent (c : Context) : Context := c.stopWith .noAnswer 0
def kFailWrongVersion (c : Context) (e : EvInfo) : Context :=
  { c with boardVersion := e.version }.stopWith .wrongVersion 0

/-! ## The table -/

/-- The states of the transition table. -/
inductive TableState where
  | idle | probing | beginning | sending | committing
  | rebooting | rechecking | confirming | done | failed
deriving DecidableEq, Repr

/-- The two rows for a `NAK` in a waiting state. -/
def nakRows (here : TableState) (c : Context) (code : UInt8) : Option (TableState × Context) :=
  if kDamagedAndCanResend c code then some (here, kResendInFlight c)
  else if kRefusedOrSpent c code then some (.failed, kFailRefused c code)
  else none

/-- The two rows for silence in a waiting state. -/
def timeoutRows (here : TableState) (c : Context) : Option (TableState × Context) :=
  if kCanResend c then some (here, kResendInFlight c)
  else some (.failed, kFailSilent c)

set_option maxRecDepth 1500 in
/-- The rules of one update.  `none` means that no row matched. -/
def otaTable (c : Context) : TableState → Event → Option (TableState × Context)
  -- the start
  | .idle, .start =>
      if kHasImage c then some (.probing, kSendInfoReq c)
      else if kNoImage c then some (.failed, kFailEmptyImage c)
      else none
  -- what the board is running
  | .probing, .info e =>
      if kIsConfirmedTarget c e then some (.done, kFinishUpToDate c e)
      else if kIsTrialTarget c e then some (.confirming, kSendConfirm c e)
      else if kNeedsUpdate c e then some (.beginning, kSendBegin c e)
      else none
  -- the transfer
  | .beginning, .ack => some (.sending, kSendFirstChunk c)
  | .sending, .ack =>
      if kMoreToSend c then some (.sending, kAckChunkAndSendNext c)
      else if kAllSent c then some (.committing, kAckChunkAndCommit c)
      else none
  | .committing, .ack => some (.rebooting, kWaitOutReboot c)
  | .rebooting, .rebootDone => some (.rechecking, kSendInfoReq c)
  -- keep it, or refuse to
  | .rechecking, .info e =>
      if kIsTargetVersion c e then some (.confirming, kSendConfirm c e)
      else if kIsOtherVersion c e then some (.failed, kFailWrongVersion c e)
      else none
  | .confirming, .ack => some (.done, kFinish c)
  -- a damaged frame or a refusal, from any waiting state
  | .probing, .nak code => nakRows .probing c code
  | .beginning, .nak code => nakRows .beginning c code
  | .sending, .nak code => nakRows .sending c code
  | .committing, .nak code => nakRows .committing c code
  | .rechecking, .nak code => nakRows .rechecking c code
  | .confirming, .nak code => nakRows .confirming c code
  -- silence, from any waiting state
  | .probing, .timeout => timeoutRows .probing c
  | .beginning, .timeout => timeoutRows .beginning c
  | .sending, .timeout => timeoutRows .sending c
  | .committing, .timeout => timeoutRows .committing c
  | .rechecking, .timeout => timeoutRows .rechecking c
  | .confirming, .timeout => timeoutRows .confirming c
  -- anything else is unhandled on purpose
  | _, _ => none

/-! ## The session -/

/-- A session: the context and where the table stands. -/
structure OtaSession where
  ctx : Context
  sm : TableState
deriving DecidableEq, Repr

/-- A fresh session. -/
def OtaSession.new (image : Bytes) (version : UInt32) (timing : Timing) : OtaSession :=
  { ctx := { image := image, version := version, timing := timing }, sm := .idle }

/-- Dispatch one event.  An event that no row takes is a protocol error, and
leaves the table where it is. -/
def OtaSession.dispatch (s : OtaSession) (event : Event) (now : Int) : Bytes × OtaSession :=
  let ctx := { s.ctx with now := now, outbox := [] }
  match otaTable ctx s.sm event with
  | none => ([], { s with ctx := ctx.stopWith .protocolError 0 })
  | some (sm, ctx) => (ctx.outbox, { ctx := ctx, sm := sm })

def OtaSession.stage (s : OtaSession) : OtaStage :=
  if s.ctx.failure ≠ .none then .failed
  else
    match s.sm with
    | .done => .done
    | .failed => .failed
    | .probing => .probing
    | .beginning => .beginning
    | .sending => .sending
    | .committing => .committing
    | .rebooting => .rebooting
    | .rechecking => .rechecking
    | .confirming => .confirming
    | .idle => .idle

/-- Begin: the `INFO_REQ` to send. -/
def OtaSession.start (s : OtaSession) (now : Int) : Bytes × OtaSession :=
  if s.stage ≠ .idle then ([], s)
  else
    let ctx := { s.ctx with now := now, outbox := [] }
    match otaTable ctx s.sm .start with
    | none => (ctx.outbox, { s with ctx := ctx })
    | some (sm, ctx) => (ctx.outbox, { ctx := ctx, sm := sm })

/-- Feed one decoded frame from the board. -/
def OtaSession.onFrame (s : OtaSession) (frame : FlashFrame) (now : Int) : Bytes × OtaSession :=
  if s.stage = .idle ∨ s.stage = .done ∨ s.stage = .failed then ([], s)
  -- An answer to a frame the session has already moved past.
  else if frame.type ≠ kInfo ∧ frame.seq ≠ s.ctx.seq then ([], s)
  else if frame.type = kAck then s.dispatch .ack now
  else if frame.type = kNak then
    match frame.payload with
    | [] => ([], { s with ctx := s.ctx.stopWith .protocolError 0 })
    | code :: _ => s.dispatch (.nak code) now
  else if frame.type = kInfo then
    if frame.payload.length ≠ kInfoPayloadBytes then
      ([], { s with ctx := s.ctx.stopWith .protocolError 0 })
    else
      s.dispatch (.info
        { version := readLittleEndian32 (frame.payload.drop kInfoVersionAt)
          state := frame.payload.getD kInfoStateAt 0 }) now
  else ([], { s with ctx := s.ctx.stopWith .protocolError 0 })

/-- Feed the current time. -/
def OtaSession.onTick (s : OtaSession) (now : Int) : Bytes × OtaSession :=
  if s.stage = .idle ∨ s.stage = .done ∨ s.stage = .failed then ([], s)
  else if now < s.ctx.deadline then ([], s)
  else if s.ctx.waitingOut then
    { s with ctx := { s.ctx with waitingOut := false } }.dispatch .rebootDone now
  else s.dispatch .timeout now

/-- Image bytes the board has acknowledged. -/
def OtaSession.bytesAcknowledged (s : OtaSession) : Nat := s.ctx.sentBytes

/-- One public call on a session. -/
inductive Op where
  | start (now : Int)
  | onFrame (frame : FlashFrame) (now : Int)
  | onTick (now : Int)
deriving DecidableEq, Repr

/-- The call an operation stands for. -/
def OtaSession.apply (s : OtaSession) : Op → Bytes × OtaSession
  | .start now => s.start now
  | .onFrame frame now => s.onFrame frame now
  | .onTick now => s.onTick now

end Ota
