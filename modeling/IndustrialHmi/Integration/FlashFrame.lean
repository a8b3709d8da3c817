import Mathlib.Logic.Function.Iterate
import IndustrialHmi.Theory.LittleEndian

/-!
# Flash protocol frames

One message of the UART flash protocol v1 and its bytes on the wire:

    A5 | TYPE (1) | SEQ (2) | LEN (2) | PAYLOAD (0..260) | CRC16 (2)

`encodeFlashFrame` writes them, in little-endian order, and refuses a payload
above the protocol maximum.  `WireFrame` is a frame it does not refuse, and
`WireFrame.bytes` what it then writes, so the code that only builds such frames
needs no error path (`WireFrame.encode_eq`).

The two checksums are the bit loops of the source over a 32-bit register.
-/

namespace Flash

open LittleEndian

/-- A run of bytes: the contents of a byte vector or of a span over one. -/
abbrev Bytes := List UInt8

/-- One message.  The start byte, `LEN` and the CRC are derived on encoding. -/
structure FlashFrame where
  /-- The message code. -/
  type : UInt8 := 0
  /-- The message number. -/
  seq : UInt16 := 0
  /-- The content. -/
  payload : Bytes := []
deriving DecidableEq, Repr

/-- Marks the start of a frame. -/
def kFlashStartByte : UInt8 := 0xA5

/-- Largest payload a frame may carry. -/
def kFlashMaxPayloadBytes : Nat := 260

/-- Bytes before the payload: start byte, TYPE, SEQ, LEN. -/
def kFlashHeaderBytes : Nat := 6

/-- Bytes after the payload: the CRC-16. -/
def kFlashTrailerBytes : Nat := 2

/-! ## The checksums -/

def kCrcPolynomial : UInt32 := 0x1021
def kCrcInitial : UInt32 := 0xFFFF
def kCrcTopBit : UInt32 := 0x8000
def kCrc16Mask : UInt32 := 0xFFFF
def kBitsPerByte : UInt32 := 8
def kLowByteMask : UInt32 := 0x00FF
def kCrc32ReflectedPolynomial : UInt32 := 0xEDB88320
def kCrc32Initial : UInt32 := 0xFFFFFFFF
def kCrc32FinalXor : UInt32 := 0xFFFFFFFF

/-- One turn of the inner loop of `crc16CcittFalse`. -/
def crc16Bit (crc : UInt32) : UInt32 :=
  (if crc &&& kCrcTopBit ≠ 0 then (crc <<< 1) ^^^ kCrcPolynomial else crc <<< 1) &&& kCrc16Mask

/-- One turn of the outer loop of `crc16CcittFalse`. -/
def crc16Byte (crc : UInt32) (b : UInt8) : UInt32 :=
  crc16Bit^[8] (crc ^^^ (b.toUInt32 <<< kBitsPerByte))

/-- CRC-16/CCITT-FALSE. -/
def crc16CcittFalse (bytes : Bytes) : UInt16 := (bytes.foldl crc16Byte kCrcInitial).toUInt16

/-- One turn of the inner loop of `crc32IsoHdlc`. -/
def crc32Bit (crc : UInt32) : UInt32 :=
  if crc &&& 1 ≠ 0 then (crc >>> 1) ^^^ kCrc32ReflectedPolynomial else crc >>> 1

/-- One turn of the outer loop of `crc32IsoHdlc`. -/
def crc32Byte (crc : UInt32) (b : UInt8) : UInt32 := crc32Bit^[8] (crc ^^^ b.toUInt32)

/-- CRC-32/ISO-HDLC. -/
def crc32IsoHdlc (bytes : Bytes) : UInt32 :=
  bytes.foldl crc32Byte kCrc32Initial ^^^ kCrc32FinalXor

/-- The standard check value, over the ASCII string `123456789`. -/
example : crc16CcittFalse [0x31, 0x32, 0x33, 0x34, 0x35, 0x36, 0x37, 0x38, 0x39] = 0x29B1 := by
  decide +kernel

example : crc32IsoHdlc [0x31, 0x32, 0x33, 0x34, 0x35, 0x36, 0x37, 0x38, 0x39] = 0xCBF43926 := by
  decide +kernel

/-! ## Little-endian fields -/

/-- Append a 16-bit value, low byte first. -/
def appendLittleEndian (out : Bytes) (value : UInt16) : Bytes :=
  let wide := value.toUInt32
  out ++ [(wide &&& kLowByteMask).toUInt8, (wide >>> kBitsPerByte).toUInt8]

/-- The 16-bit field at `offset`, low byte first. -/
def readLittleEndian (buf : Bytes) (offset : Nat) : UInt16 :=
  let low := (buf.getD offset 0).toUInt32
  let high := (buf.getD (offset + 1) 0).toUInt32
  (low ||| (high <<< kBitsPerByte)).toUInt16

theorem appendLittleEndian_eq (out : Bytes) (value : UInt16) :
    appendLittleEndian out value = out ++ leBytes 2 value.toNat := by
  have hv := value.toNat_lt
  have hlow : (value.toUInt32 &&& kLowByteMask).toUInt8 = UInt8.ofNat value.toNat := by
    apply UInt8.toNat_inj.mp
    simp [kLowByteMask, and_255]
  have hhigh : (value.toUInt32 >>> kBitsPerByte).toUInt8 = UInt8.ofNat (value.toNat / 256) := by
    apply UInt8.toNat_inj.mp
    simp [kBitsPerByte, Nat.shiftRight_eq_div_pow]
  simp only [appendLittleEndian, leBytes, hlow, hhigh]

theorem toNat_or_shiftLeft (low high : UInt8) :
    (low.toUInt32 ||| (high.toUInt32 <<< kBitsPerByte)).toUInt16.toNat =
      low.toNat + 256 * high.toNat := by
  have hlow := low.toNat_lt
  have hhigh := high.toNat_lt
  have hshift : high.toNat <<< 8 % 65536 = high.toNat <<< 8 := by
    rw [Nat.shiftLeft_eq]
    omega
  simp only [kBitsPerByte, UInt32.toUInt16_or, UInt16.toNat_or]
  simp only [UInt8.toUInt16_toUInt32, UInt8.toNat_toUInt16, UInt32.toNat_toUInt16,
    UInt32.toNat_shiftLeft, UInt8.toNat_toUInt32, UInt32.reduceToNat, Nat.reduceMod]
  rw [Nat.mod_mod_of_dvd _ (by decide), hshift, or_shiftLeft_eq_add _ hlow]
  rfl

theorem readLittleEndian_toNat (buf : Bytes) (offset : Nat) :
    (readLittleEndian buf offset).toNat =
      leNat [buf.getD offset 0, buf.getD (offset + 1) 0] := by
  rw [readLittleEndian, toNat_or_shiftLeft]
  rfl

/-- Reading a field gives back the two bytes that were appended. -/
theorem leBytes_readLittleEndian (buf : Bytes) (offset : Nat) :
    leBytes 2 (readLittleEndian buf offset).toNat =
      [buf.getD offset 0, buf.getD (offset + 1) 0] := by
  rw [readLittleEndian_toNat]
  exact leBytes_leNat [_, _]

/-- A field is read off the two bytes that spell it. -/
theorem readLittleEndian_of_bytes {buf : Bytes} {offset : Nat} {value : UInt16}
    (h : [buf.getD offset 0, buf.getD (offset + 1) 0] = leBytes 2 value.toNat) :
    readLittleEndian buf offset = value := by
  apply UInt16.toNat_inj.mp
  rw [readLittleEndian_toNat, h]
  exact leNat_leBytes value.toNat_lt

/-! ## Encoding -/

/-- What `encodeFlashFrame` covers with the CRC: everything between the start
byte and the CRC itself. -/
def frameBody (frame : FlashFrame) : Bytes :=
  appendLittleEndian (appendLittleEndian [frame.type] frame.seq)
    (UInt16.ofNat frame.payload.length) ++ frame.payload

/-- The bytes of a frame whose payload fits. -/
def frameBytes (frame : FlashFrame) : Bytes :=
  appendLittleEndian (kFlashStartByte :: frameBody frame) (crc16CcittFalse (frameBody frame))

/-- Serialise a frame, or throw if its payload is longer than the maximum. -/
def encodeFlashFrame (frame : FlashFrame) : Except String Bytes :=
  if frame.payload.length > kFlashMaxPayloadBytes then
    .error ("flash frame payload of " ++ toString frame.payload.length ++
      " bytes exceeds the protocol maximum of " ++ toString kFlashMaxPayloadBytes)
  else .ok (frameBytes frame)

/-- A payload that `encodeFlashFrame` accepts. -/
abbrev Payload := { p : Bytes // p.length ≤ kFlashMaxPayloadBytes }

/-- A frame that `encodeFlashFrame` accepts. -/
@[ext]
structure WireFrame where
  /-- The frame. -/
  frame : FlashFrame
  /-- Its payload is within the maximum. -/
  fits : frame.payload.length ≤ kFlashMaxPayloadBytes

/-- What is written for it. -/
def WireFrame.bytes (w : WireFrame) : Bytes := frameBytes w.frame

/-- Encoding a frame whose payload fits does not throw. -/
theorem WireFrame.encode_eq (w : WireFrame) : encodeFlashFrame w.frame = .ok w.bytes :=
  if_neg (Nat.not_lt.mpr w.fits)

theorem encodeFlashFrame_eq_ok {frame : FlashFrame} {bs : Bytes} :
    encodeFlashFrame frame = .ok bs ↔
      frame.payload.length ≤ kFlashMaxPayloadBytes ∧ frameBytes frame = bs := by
  unfold encodeFlashFrame
  split
  · next h =>
      constructor
      · intro he; cases he
      · rintro ⟨hfits, _⟩; exact absurd hfits (Nat.not_le.mpr h)
  · next h =>
      constructor
      · intro he; cases he; exact ⟨Nat.not_lt.mp h, rfl⟩
      · rintro ⟨_, he⟩; rw [he]

/-- The fields of a frame, in the order they stand on the wire. -/
theorem frameBody_eq (frame : FlashFrame) :
    frameBody frame = frame.type :: (leBytes 2 frame.seq.toNat ++
      leBytes 2 (UInt16.ofNat frame.payload.length).toNat ++ frame.payload) := by
  simp only [frameBody, appendLittleEndian_eq, List.cons_append, List.nil_append]

theorem frameBytes_eq (frame : FlashFrame) :
    frameBytes frame = kFlashStartByte ::
      (frameBody frame ++ leBytes 2 (crc16CcittFalse (frameBody frame)).toNat) := by
  simp only [frameBytes, appendLittleEndian_eq, List.cons_append]

@[simp] theorem frameBody_length (frame : FlashFrame) :
    (frameBody frame).length = 5 + frame.payload.length := by
  rw [frameBody_eq]
  simp only [List.length_cons, List.length_append, leBytes_length]
  omega

@[simp] theorem frameBytes_length (frame : FlashFrame) :
    (frameBytes frame).length = kFlashHeaderBytes + frame.payload.length + kFlashTrailerBytes := by
  rw [frameBytes_eq]
  simp only [List.length_cons, List.length_append, frameBody_length, leBytes_length,
    kFlashHeaderBytes, kFlashTrailerBytes]
  omega

theorem frameBytes_ne_nil (frame : FlashFrame) : frameBytes frame ≠ [] := by
  rw [frameBytes_eq]
  exact List.cons_ne_nil _ _

/-- The worked example of the protocol: `INFO_REQ` as message number 1. -/
example : encodeFlashFrame { type := 0x01, seq := 1 } =
    .ok [0xA5, 0x01, 0x01, 0x00, 0x00, 0x00, 0xE9, 0xCD] := by
  decide +kernel

end Flash
