import IndustrialHmi.Theory.BigEndian

/-!
# Modbus frames

A frame is a header of seven bytes and a PDU.  The header has the transaction id, the
protocol id, the number of bytes that follow and the unit id.  Requests are encoded and
responses decoded; a response is checked field by field, and the first field that is wrong
is the error.
-/

namespace Modbus

abbrev Bytes := List (BitVec 8)

/-- Big-endian 16-bit write. -/
def writeBe16 (value : BitVec 16) : Bytes := BigEndian.bytes value

/-- Big-endian 16-bit read at an offset; the caller has checked the bounds. -/
def readBe16 (buf : Bytes) (offset : Nat) : BitVec 16 := BigEndian.word buf offset

def kMbapHeaderSize : Nat := 7
def kMaxPduSize : Nat := 253
def kModbusTcpProtocolId : BitVec 16 := 0x0000
def kExceptionFlag : BitVec 8 := 0x80
def kFunctionCodeMask : BitVec 8 := 0x7F
def kMaxRegistersPerRead : BitVec 16 := 125

inductive FunctionCode where
  | ReadHoldingRegisters
  | ReadInputRegisters

def FunctionCode.toByte : FunctionCode → BitVec 8
  | .ReadHoldingRegisters => 0x03
  | .ReadInputRegisters => 0x04

inductive ExceptionCode where
  | IllegalFunction
  | IllegalDataAddress
  | IllegalDataValue
  | SlaveDeviceFailure
  | Other

inductive DecodeError where
  | ShortFrame
  | BadProtocolId
  | LengthMismatch
  | TransactionIdMismatch
  | UnitIdMismatch
  | FunctionCodeMismatch
  | ByteCountMismatch
  | ServerException
  | InvalidQuantity

def mapExceptionCode (raw : BitVec 8) : ExceptionCode :=
  if raw = 0x01 then .IllegalFunction
  else if raw = 0x02 then .IllegalDataAddress
  else if raw = 0x03 then .IllegalDataValue
  else if raw = 0x04 then .SlaveDeviceFailure
  else .Other

def encodeReadRequest (transactionId : BitVec 16) (unitId : BitVec 8) (fc : FunctionCode)
    (startAddress quantity : BitVec 16) : Bytes :=
  writeBe16 transactionId ++ writeBe16 kModbusTcpProtocolId ++ writeBe16 6 ++ [unitId] ++
    [fc.toByte] ++ writeBe16 startAddress ++ writeBe16 quantity

structure ResponseContext where
  expectedTransactionId : BitVec 16
  expectedUnitId : BitVec 8
  expectedFunctionCode : FunctionCode
  expectedQuantity : BitVec 16

/-- An exception is answered with no registers and its code. -/
structure DecodedReadResponse where
  registers : List (BitVec 16) := []
  exceptionCode : ExceptionCode := .Other

def decodeReadResponse (adu : Bytes) (ctx : ResponseContext) :
    Except DecodeError DecodedReadResponse :=
  -- the smallest response is an exception: function code and exception code
  if adu.length < kMbapHeaderSize + 2 then .error .ShortFrame
  else if readBe16 adu 2 ≠ kModbusTcpProtocolId then .error .BadProtocolId
  else if readBe16 adu 0 ≠ ctx.expectedTransactionId then .error .TransactionIdMismatch
  else if adu.getD 6 0 ≠ ctx.expectedUnitId then .error .UnitIdMismatch
  else if adu.length ≠ kMbapHeaderSize + (readBe16 adu 4).toNat - 1 then .error .LengthMismatch
  else
    let rawFc := adu.getD 7 0
    let expectedFcRaw := ctx.expectedFunctionCode.toByte
    if rawFc &&& kExceptionFlag ≠ 0 then
      if rawFc &&& kFunctionCodeMask ≠ expectedFcRaw then .error .FunctionCodeMismatch
      else .ok { exceptionCode := mapExceptionCode (adu.getD 8 0) }
    else if rawFc ≠ expectedFcRaw then .error .FunctionCodeMismatch
    else
      let byteCount := adu.getD 8 0
      if byteCount.setWidth 16 ≠ ctx.expectedQuantity * 2 then .error .ByteCountMismatch
      else if kMbapHeaderSize + (2 + byteCount.toNat) ≠ adu.length then .error .LengthMismatch
      else
        .ok { registers := (List.range ctx.expectedQuantity.toNat).map fun i =>
          readBe16 adu (kMbapHeaderSize + 2 + i * 2) }

/-! ## Well-formed frames -/

/-- A frame with a PDU of at least one byte and at most as many as the protocol allows. -/
structure Adu where
  transactionId : BitVec 16
  unitId : BitVec 8
  pdu : Bytes
  nonempty : pdu ≠ []
  bounded : pdu.length ≤ kMaxPduSize

def Adu.header (adu : Adu) : Bytes :=
  writeBe16 adu.transactionId ++ writeBe16 kModbusTcpProtocolId ++
    writeBe16 (BitVec.ofNat 16 (1 + adu.pdu.length)) ++ [adu.unitId]

def Adu.bytes (adu : Adu) : Bytes := adu.header ++ adu.pdu

@[simp] theorem Adu.length_header (adu : Adu) : adu.header.length = kMbapHeaderSize := rfl

@[simp] theorem Adu.length_bytes (adu : Adu) :
    adu.bytes.length = kMbapHeaderSize + adu.pdu.length := List.length_append

theorem Adu.readBe16_transactionId (adu : Adu) (rest : Bytes) :
    readBe16 (adu.header ++ rest) 0 = adu.transactionId := BigEndian.or_halves _

theorem Adu.readBe16_protocolId (adu : Adu) : readBe16 adu.bytes 2 = kModbusTcpProtocolId :=
  BigEndian.or_halves _

/-- The length field counts the unit id and the PDU. -/
theorem Adu.readBe16_length (adu : Adu) (rest : Bytes) :
    (readBe16 (adu.header ++ rest) 4).toNat = 1 + adu.pdu.length := by
  have hfield : readBe16 (adu.header ++ rest) 4 = BitVec.ofNat 16 (1 + adu.pdu.length) :=
    BigEndian.or_halves _
  have hbound := adu.bounded
  rw [kMaxPduSize] at hbound
  rw [hfield, BitVec.toNat_ofNat, Nat.mod_eq_of_lt (by omega)]

/-- A frame with another transaction id is refused. -/
theorem decodeReadResponse_foreign (adu : Adu) {ctx : ResponseContext}
    (h : adu.transactionId ≠ ctx.expectedTransactionId) :
    ∃ error, decodeReadResponse adu.bytes ctx = .error error := by
  have hforeign : readBe16 adu.bytes 0 ≠ ctx.expectedTransactionId := by
    rw [Adu.bytes, adu.readBe16_transactionId]
    exact h
  by_cases hshort : adu.bytes.length < kMbapHeaderSize + 2
  · rw [decodeReadResponse, if_pos hshort]
    exact ⟨_, rfl⟩
  · rw [decodeReadResponse, if_neg hshort, if_neg (not_not.mpr adu.readBe16_protocolId),
      if_pos hforeign]
    exact ⟨_, rfl⟩

theorem toNat_kMaxRegistersPerRead : kMaxRegistersPerRead.toNat = 125 := rfl

theorem length_flatMap_writeBe16 (registers : List (BitVec 16)) :
    (registers.flatMap writeBe16).length = registers.length * 2 :=
  BigEndian.length_flatMap_bytes registers

/-- The response to a read, with the registers' values. -/
def readResponse (transactionId : BitVec 16) (unitId : BitVec 8) (fc : FunctionCode)
    (registers : List (BitVec 16)) (h : registers.length ≤ kMaxRegistersPerRead.toNat) : Adu where
  transactionId := transactionId
  unitId := unitId
  pdu := fc.toByte :: BitVec.ofNat 8 (registers.length * 2) :: registers.flatMap writeBe16
  nonempty := List.cons_ne_nil _ _
  bounded := by
    rw [toNat_kMaxRegistersPerRead] at h
    rw [List.length_cons, List.length_cons, length_flatMap_writeBe16, kMaxPduSize]
    omega

theorem length_pdu_readResponse (transactionId : BitVec 16) (unitId : BitVec 8)
    (fc : FunctionCode) {registers : List (BitVec 16)}
    (h : registers.length ≤ kMaxRegistersPerRead.toNat) :
    (readResponse transactionId unitId fc registers h).pdu.length = 2 + registers.length * 2 := by
  rw [readResponse, List.length_cons, List.length_cons, length_flatMap_writeBe16]
  omega

theorem readBe16_readResponse (transactionId : BitVec 16) (unitId : BitVec 8)
    (fc : FunctionCode) {registers : List (BitVec 16)}
    (h : registers.length ≤ kMaxRegistersPerRead.toNat) :
    (List.range registers.length).map (fun i =>
      readBe16 (readResponse transactionId unitId fc registers h).bytes
        (kMbapHeaderSize + 2 + i * 2)) = registers :=
  BigEndian.words_flatMap ((readResponse transactionId unitId fc registers h).header ++
    [fc.toByte, BitVec.ofNat 8 (registers.length * 2)]) registers

/-- A response is decoded to its registers by the context of its request. -/
theorem decodeReadResponse_readResponse (ctx : ResponseContext) {registers : List (BitVec 16)}
    (h : registers.length ≤ kMaxRegistersPerRead.toNat)
    (hquantity : ctx.expectedQuantity.toNat = registers.length) :
    decodeReadResponse (readResponse ctx.expectedTransactionId ctx.expectedUnitId
      ctx.expectedFunctionCode registers h).bytes ctx = .ok { registers := registers } := by
  have hpdu := length_pdu_readResponse ctx.expectedTransactionId ctx.expectedUnitId
    ctx.expectedFunctionCode h
  have hregisters := readBe16_readResponse ctx.expectedTransactionId ctx.expectedUnitId
    ctx.expectedFunctionCode h
  generalize hadu : readResponse ctx.expectedTransactionId ctx.expectedUnitId
    ctx.expectedFunctionCode registers h = adu at hpdu hregisters ⊢
  have htid : readBe16 adu.bytes 0 = ctx.expectedTransactionId := by
    rw [Adu.bytes, adu.readBe16_transactionId, ← hadu, readResponse]
  have hunit : adu.bytes.getD 6 0 = ctx.expectedUnitId := by
    subst hadu
    rfl
  have hfc : adu.bytes.getD 7 0 = ctx.expectedFunctionCode.toByte := by
    subst hadu
    rfl
  have hcount : adu.bytes.getD 8 0 = BitVec.ofNat 8 (registers.length * 2) := by
    subst hadu
    rfl
  have hlength : adu.bytes.length = kMbapHeaderSize + 2 + registers.length * 2 := by
    rw [adu.length_bytes, hpdu, Nat.add_assoc]
  have hshort : ¬ adu.bytes.length < kMbapHeaderSize + 2 := by omega
  have hsize : adu.bytes.length = kMbapHeaderSize + (readBe16 adu.bytes 4).toNat - 1 := by
    rw [Adu.bytes, adu.readBe16_length, ← Adu.bytes]
    omega
  rw [toNat_kMaxRegistersPerRead] at h
  have hcountNat : (BitVec.ofNat 8 (registers.length * 2)).toNat = registers.length * 2 := by
    rw [BitVec.toNat_ofNat, Nat.mod_eq_of_lt (by omega)]
  have hexpected : (BitVec.ofNat 8 (registers.length * 2)).setWidth 16 =
      ctx.expectedQuantity * 2 := by
    apply BitVec.eq_of_toNat_eq
    rw [BitVec.toNat_setWidth, hcountNat, BitVec.toNat_mul, hquantity]
    rfl
  have hflag : ctx.expectedFunctionCode.toByte &&& kExceptionFlag = 0 := by
    cases ctx.expectedFunctionCode <;> rfl
  have hfits : kMbapHeaderSize + (2 + registers.length * 2) = adu.bytes.length := by omega
  rw [decodeReadResponse, if_neg hshort, if_neg (not_not.mpr adu.readBe16_protocolId),
    if_neg (not_not.mpr htid), if_neg (not_not.mpr hunit), if_neg (not_not.mpr hsize)]
  simp only [hfc, hcount]
  rw [if_neg (not_not.mpr hflag), if_neg (not_not.mpr rfl), if_neg (not_not.mpr hexpected),
    hcountNat, if_neg (not_not.mpr hfits), hquantity, hregisters]

end Modbus
