import IndustrialHmi.Integration.ModbusPdu
import IndustrialHmi.Theory.Access

/-!
# The grammar of Modbus responses

A response is an exception of nine bytes, or the registers with their number of bytes before
them.  The length is said three times: by the frame itself, by the field of its header, and by the
byte count.  The decoder compares all three for registers.  Behind an exception it does not look:
there may be more bytes, when the header counts them (`follows_iff`).

The byte count is compared with twice the quantity, which comes round from 32768 on, and the
registers are then read up to the quantity itself (`safe_iff`).
-/

namespace Modbus

/-! ## The grammar -/

/-- The header answers the request, and counts what follows its length field. -/
structure HeaderMatches (adu : Bytes) (ctx : ResponseContext) : Prop where
  protocolId : readBe16 adu 2 = kModbusTcpProtocolId
  transactionId : readBe16 adu 0 = ctx.expectedTransactionId
  unitId : adu.getD 6 0 = ctx.expectedUnitId
  length : adu.length = 6 + (readBe16 adu 4).toNat

/-- The function code is the one of the request with the exception bit. -/
def HasExceptionCode (adu : Bytes) (ctx : ResponseContext) : Prop :=
  adu.getD 7 0 = ctx.expectedFunctionCode.toByte ||| kExceptionFlag

instance (adu : Bytes) (ctx : ResponseContext) : Decidable (HasExceptionCode adu ctx) :=
  inferInstanceAs (Decidable (_ = _))

structure IsException (adu : Bytes) (ctx : ResponseContext) : Prop
    extends HeaderMatches adu ctx where
  functionCode : HasExceptionCode adu ctx
  size : adu.length = 9

structure IsNormal (adu : Bytes) (ctx : ResponseContext) : Prop
    extends HeaderMatches adu ctx where
  functionCode : adu.getD 7 0 = ctx.expectedFunctionCode.toByte
  byteCount : (adu.getD 8 0).toNat = 2 * ctx.expectedQuantity.toNat
  size : adu.length = 9 + 2 * ctx.expectedQuantity.toNat

/-! ## What is decoded -/

def exceptionResponse (adu : Bytes) : DecodedReadResponse :=
  { exceptionCode := mapExceptionCode (adu.getD 8 0) }

def readRegisters (adu : Bytes) (ctx : ResponseContext) : DecodedReadResponse :=
  { registers := (List.range ctx.expectedQuantity.toNat).map fun i =>
      readBe16 adu (kMbapHeaderSize + 2 + i * 2) }

/-- What the decoder has checked when it reads registers. -/
structure RegistersChecked (adu : Bytes) (ctx : ResponseContext) : Prop where
  functionCode : adu.getD 7 0 = ctx.expectedFunctionCode.toByte
  byteCount : (adu.getD 8 0).setWidth 16 = ctx.expectedQuantity * 2
  size : adu.length = 9 + (adu.getD 8 0).toNat

theorem flag_of_hasExceptionCode {adu : Bytes} {ctx : ResponseContext} :
    HasExceptionCode adu ctx ↔
      adu.getD 7 0 &&& kExceptionFlag ≠ 0 ∧
        adu.getD 7 0 &&& kFunctionCodeMask = ctx.expectedFunctionCode.toByte := by
  rw [HasExceptionCode]
  generalize adu.getD 7 0 = rawFc
  revert rawFc
  cases ctx.expectedFunctionCode <;> decide

theorem not_hasExceptionCode {adu : Bytes} {ctx : ResponseContext}
    (h : adu.getD 7 0 = ctx.expectedFunctionCode.toByte) :
    adu.getD 7 0 &&& kExceptionFlag = 0 := by
  rw [h]
  cases ctx.expectedFunctionCode <;> rfl

/-- The four checks of the header. -/
theorem headerMatches_iff {adu : Bytes} {ctx : ResponseContext} :
    HeaderMatches adu ctx ↔
      readBe16 adu 2 = kModbusTcpProtocolId ∧ readBe16 adu 0 = ctx.expectedTransactionId ∧
        adu.getD 6 0 = ctx.expectedUnitId ∧
          adu.length = kMbapHeaderSize + (readBe16 adu 4).toNat - 1 := by
  have hlength : adu.length = kMbapHeaderSize + (readBe16 adu 4).toNat - 1 ↔
      adu.length = 6 + (readBe16 adu 4).toNat := by
    rw [kMbapHeaderSize]
    omega
  rw [hlength]
  exact ⟨fun h => ⟨h.1, h.2, h.3, h.4⟩, fun ⟨h₁, h₂, h₃, h₄⟩ => ⟨h₁, h₂, h₃, h₄⟩⟩

/-- The three checks of the registers. -/
theorem registersChecked_iff_pdu {adu : Bytes} {ctx : ResponseContext} :
    RegistersChecked adu ctx ↔
      adu.getD 7 0 = ctx.expectedFunctionCode.toByte ∧
        (adu.getD 8 0).setWidth 16 = ctx.expectedQuantity * 2 ∧
          kMbapHeaderSize + (2 + (adu.getD 8 0).toNat) = adu.length := by
  have hsize : kMbapHeaderSize + (2 + (adu.getD 8 0).toNat) = adu.length ↔
      adu.length = 9 + (adu.getD 8 0).toNat := by
    rw [kMbapHeaderSize]
    omega
  rw [hsize]
  exact ⟨fun h => ⟨h.1, h.2, h.3⟩, fun ⟨h₁, h₂, h₃⟩ => ⟨h₁, h₂, h₃⟩⟩

/-- A response that is accepted is of one of two kinds. -/
theorem decodeReadResponse_ok_iff {adu : Bytes} {ctx : ResponseContext}
    {r : DecodedReadResponse} :
    decodeReadResponse adu ctx = .ok r ↔
      (9 ≤ adu.length ∧ HeaderMatches adu ctx) ∧
        (HasExceptionCode adu ctx ∧ r = exceptionResponse adu ∨
          RegistersChecked adu ctx ∧ r = readRegisters adu ctx) := by
  rw [decodeReadResponse, Access.guard_eq_ok, Access.guard_eq_ok, Access.guard_eq_ok,
    Access.guard_eq_ok, Access.guard_eq_ok, Nat.not_lt, not_not, not_not, not_not, not_not,
    headerMatches_iff]
  simp only [and_assoc]
  refine and_congr_right fun _ => and_congr_right fun _ => and_congr_right fun _ =>
    and_congr_right fun _ => and_congr_right fun _ => ?_
  by_cases hflag : adu.getD 7 0 &&& kExceptionFlag ≠ 0
  · have hother : ¬RegistersChecked adu ctx :=
      fun h => hflag (not_hasExceptionCode h.functionCode)
    rw [if_pos hflag, Access.guard_eq_ok, not_not, flag_of_hasExceptionCode, and_iff_right hflag,
      or_iff_left fun h => hother h.1, Except.ok.injEq, eq_comm (a := r)]
    rfl
  · have hother : ¬HasExceptionCode adu ctx := fun h => hflag (flag_of_hasExceptionCode.mp h).1
    rw [if_neg hflag, Access.guard_eq_ok, Access.guard_eq_ok, Access.guard_eq_ok, not_not, not_not,
      not_not, or_iff_right fun h => hother h.1, registersChecked_iff_pdu, Except.ok.injEq,
      eq_comm (a := r), and_assoc, and_assoc]
    rfl

/-! ## Quantities -/

/-- The quantity that the comparison with the byte count leaves. -/
def ResponseContext.reduced (ctx : ResponseContext) : ResponseContext :=
  { ctx with expectedQuantity := ctx.expectedQuantity &&& 0x7FFF }

theorem toNat_reduced (ctx : ResponseContext) :
    ctx.reduced.expectedQuantity.toNat = ctx.expectedQuantity.toNat % 32768 := by
  show (ctx.expectedQuantity &&& 0x7FFF).toNat = _
  rw [BitVec.toNat_and]
  exact Nat.and_two_pow_sub_one_eq_mod _ 15

theorem reduced_eq_self {ctx : ResponseContext} (h : ctx.expectedQuantity.toNat < 32768) :
    ctx.reduced = ctx := by
  have hquantity : ctx.expectedQuantity &&& 0x7FFF = ctx.expectedQuantity := by
    apply BitVec.eq_of_toNat_eq
    exact (toNat_reduced ctx).trans (Nat.mod_eq_of_lt h)
  rw [ResponseContext.reduced, hquantity]

/-- Twice the quantity is a word. -/
theorem byteCount_iff (byteCount : BitVec 8) (ctx : ResponseContext) :
    byteCount.setWidth 16 = ctx.expectedQuantity * 2 ↔
      byteCount.toNat = 2 * ctx.reduced.expectedQuantity.toNat := by
  have hlt := byteCount.isLt
  have htwice : (ctx.expectedQuantity * 2).toNat = ctx.expectedQuantity.toNat * 2 % 65536 :=
    BitVec.toNat_mul _ _
  rw [← BitVec.toNat_inj, BitVec.toNat_setWidth, htwice, toNat_reduced]
  omega

/-- The checked frames are the normal responses for the reduced quantity. -/
theorem registersChecked_iff {adu : Bytes} {ctx : ResponseContext} :
    (9 ≤ adu.length ∧ HeaderMatches adu ctx) ∧ RegistersChecked adu ctx ↔
      IsNormal adu ctx.reduced := by
  constructor
  · rintro ⟨⟨-, hheader⟩, hchecked⟩
    have hcount := (byteCount_iff _ ctx).mp hchecked.byteCount
    exact ⟨⟨hheader.1, hheader.2, hheader.3, hheader.4⟩, hchecked.functionCode, hcount,
      hcount ▸ hchecked.size⟩
  · intro h
    refine ⟨⟨?_, h.1.1, h.1.2, h.1.3, h.1.4⟩, h.functionCode,
      (byteCount_iff _ ctx).mpr h.byteCount, ?_⟩
    · rw [h.size]
      exact Nat.le_add_right 9 _
    · rw [h.byteCount]
      exact h.size

/-- A header that matches and an exception code, and a byte or more behind the exception. -/
structure IsLongException (adu : Bytes) (ctx : ResponseContext) : Prop
    extends HeaderMatches adu ctx where
  functionCode : HasExceptionCode adu ctx
  size : 9 < adu.length

/-- What is accepted. -/
theorem decodeReadResponse_ok {adu : Bytes} {ctx : ResponseContext} {r : DecodedReadResponse} :
    decodeReadResponse adu ctx = .ok r ↔
      (IsException adu ctx ∨ IsLongException adu ctx) ∧ r = exceptionResponse adu ∨
        IsNormal adu ctx.reduced ∧ r = readRegisters adu ctx := by
  rw [decodeReadResponse_ok_iff, and_or_left, ← and_assoc, ← and_assoc, registersChecked_iff]
  refine or_congr_left (and_congr_left' ⟨?_, ?_⟩)
  · rintro ⟨⟨hlong, hheader⟩, hcode⟩
    rcases Nat.eq_or_lt_of_le hlong with hnine | hlong
    · exact Or.inl ⟨hheader, hcode, hnine.symm⟩
    · exact Or.inr ⟨hheader, hcode, hlong⟩
  · rintro (h | h)
    · exact ⟨⟨Nat.le_of_eq h.size.symm, h.toHeaderMatches⟩, h.functionCode⟩
    · exact ⟨⟨Nat.le_of_lt h.size, h.toHeaderMatches⟩, h.functionCode⟩

/-! ## The decoder and the grammar -/

/-- Exactly the frames of the grammar are accepted, and decoded to what they say. -/
structure FollowsGrammar (adu : Bytes) (ctx : ResponseContext) : Prop where
  accepts_iff : (∃ r, decodeReadResponse adu ctx = .ok r) ↔
    IsException adu ctx ∨ IsNormal adu ctx
  exception : ∀ r, decodeReadResponse adu ctx = .ok r → IsException adu ctx →
    r.exceptionCode = mapExceptionCode (adu.getD 8 0) ∧ r.registers = []
  normal : ∀ r, decodeReadResponse adu ctx = .ok r → IsNormal adu ctx →
    r.registers.length = ctx.expectedQuantity.toNat ∧
      r.registers.flatMap writeBe16 = adu.drop 9

/-- No function code has the exception bit and has it not. -/
theorem not_hasExceptionCode_of_normal {adu : Bytes} {ctx : ResponseContext}
    (h : IsNormal adu ctx) : ¬HasExceptionCode adu ctx :=
  fun hcode => (flag_of_hasExceptionCode.mp hcode).1 (not_hasExceptionCode h.functionCode)

theorem not_followsGrammar {adu : Bytes} {ctx : ResponseContext} (h : IsLongException adu ctx) :
    ¬FollowsGrammar adu ctx := by
  intro hfollows
  have haccepted := decodeReadResponse_ok.mpr (Or.inl ⟨Or.inr h, rfl⟩)
  rcases hfollows.accepts_iff.mp ⟨_, haccepted⟩ with hexception | hnormal
  · exact Nat.lt_irrefl 9 (hexception.size ▸ h.size)
  · exact not_hasExceptionCode_of_normal hnormal h.functionCode

/-- The decoder follows the grammar for every frame but an exception with more bytes behind it. -/
theorem follows_iff (adu : Bytes) {ctx : ResponseContext}
    (hmax : ctx.expectedQuantity.toNat ≤ kMaxRegistersPerRead.toNat) :
    FollowsGrammar adu ctx ↔ ¬IsLongException adu ctx := by
  rw [toNat_kMaxRegistersPerRead] at hmax
  have hreduced : ctx.reduced = ctx := reduced_eq_self (by omega)
  refine ⟨fun h hlong => not_followsGrammar hlong h, fun h => ?_⟩
  have hok : ∀ {r}, decodeReadResponse adu ctx = .ok r ↔
      IsException adu ctx ∧ r = exceptionResponse adu ∨
        IsNormal adu ctx ∧ r = readRegisters adu ctx := by
    intro r
    rw [decodeReadResponse_ok, hreduced, or_iff_left h]
  refine ⟨⟨?_, ?_⟩, fun r hr hexception => ?_, fun r hr hnormal => ?_⟩
  · rintro ⟨r, hr⟩
    exact (hok.mp hr).imp And.left And.left
  · rintro (hexception | hnormal)
    · exact ⟨_, hok.mpr (Or.inl ⟨hexception, rfl⟩)⟩
    · exact ⟨_, hok.mpr (Or.inr ⟨hnormal, rfl⟩)⟩
  · obtain ⟨-, rfl⟩ | ⟨hnormal, -⟩ := hok.mp hr
    · exact ⟨rfl, rfl⟩
    · exact absurd hexception.functionCode (not_hasExceptionCode_of_normal hnormal)
  · obtain ⟨hexception, -⟩ | ⟨-, rfl⟩ := hok.mp hr
    · exact absurd hexception.functionCode (not_hasExceptionCode_of_normal hnormal)
    · rw [readRegisters, List.length_map, List.length_range]
      exact ⟨rfl, BigEndian.flatMap_bytes_words hnormal.size⟩

/-- A request for one holding register. -/
def oneRegister : ResponseContext where
  expectedTransactionId := 1
  expectedUnitId := 1
  expectedFunctionCode := .ReadHoldingRegisters
  expectedQuantity := 1

theorem follows_one_register :
    FollowsGrammar [0, 1, 0, 0, 0, 5, 1, 0x03, 2, 0xBE, 0xEF] oneRegister := by
  refine (follows_iff _ (by decide)).mpr fun h => ?_
  exact absurd h.functionCode (by decide)

/-- An exception with one byte more, which the header counts. -/
theorem not_followsGrammar_ten_bytes :
    ¬FollowsGrammar [0, 1, 0, 0, 0, 4, 1, 0x83, 2, 0xFF] oneRegister := by
  refine not_followsGrammar ⟨⟨?_, ?_, ?_, ?_⟩, ?_, ?_⟩
  all_goals decide

/-! ## What is indexed -/

namespace Traced

def readBe16 (buf : Bytes) (offset : Nat) : Access DecodeError (BitVec 16) := do
  let hi ← Access.get buf 0 offset
  let lo ← Access.get buf 0 (offset + 1)
  pure (hi.setWidth 16 <<< 8 ||| lo.setWidth 16)

/-- The decoder, with the bytes that it indexes. -/
def decodeReadResponse (adu : Bytes) (ctx : ResponseContext) :
    Access DecodeError DecodedReadResponse :=
  if adu.length < kMbapHeaderSize + 2 then .fail .ShortFrame
  else do
    let transactionId ← readBe16 adu 0
    let protocolId ← readBe16 adu 2
    let length ← readBe16 adu 4
    let unitId ← Access.get adu 0 6
    if protocolId ≠ kModbusTcpProtocolId then .fail .BadProtocolId
    else if transactionId ≠ ctx.expectedTransactionId then .fail .TransactionIdMismatch
    else if unitId ≠ ctx.expectedUnitId then .fail .UnitIdMismatch
    else if adu.length ≠ kMbapHeaderSize + length.toNat - 1 then .fail .LengthMismatch
    else do
      let rawFc ← Access.get adu 0 7
      let expectedFcRaw := ctx.expectedFunctionCode.toByte
      if rawFc &&& kExceptionFlag ≠ 0 then
        if rawFc &&& kFunctionCodeMask ≠ expectedFcRaw then .fail .FunctionCodeMismatch
        else do
          let code ← Access.get adu 0 8
          pure { exceptionCode := mapExceptionCode code }
      else if rawFc ≠ expectedFcRaw then .fail .FunctionCodeMismatch
      else do
        let byteCount ← Access.get adu 0 8
        if byteCount.setWidth 16 ≠ ctx.expectedQuantity * 2 then .fail .ByteCountMismatch
        else if kMbapHeaderSize + (2 + byteCount.toNat) ≠ adu.length then .fail .LengthMismatch
        else do
          let registers ← Access.collect (fun i => readBe16 adu (kMbapHeaderSize + 2 + i * 2))
            (List.range ctx.expectedQuantity.toNat)
          pure { registers }

theorem result_readBe16 (buf : Bytes) (offset : Nat) :
    (readBe16 buf offset).result = .ok (Modbus.readBe16 buf offset) := rfl

theorem inBounds_readBe16 {buf : Bytes} {offset size : Nat} :
    (readBe16 buf offset).InBounds size ↔ offset + 1 < size := by
  rw [readBe16, Access.inBounds_bind_ok (Access.result_get ..),
    Access.inBounds_bind_ok (Access.result_get ..), Access.inBounds_get, Access.inBounds_get,
    and_iff_left (Access.inBounds_pure _ _)]
  exact and_iff_right_of_imp Nat.lt_of_succ_lt

theorem result_decodeReadResponse (adu : Bytes) (ctx : ResponseContext) :
    (decodeReadResponse adu ctx).result = Modbus.decodeReadResponse adu ctx := by
  have hregisters := Access.result_collect
    (fun i => result_readBe16 adu (kMbapHeaderSize + 2 + i * 2))
    (List.range ctx.expectedQuantity.toNat)
  rw [decodeReadResponse, Access.result_ite, Access.result_bind_ok (result_readBe16 ..),
    Access.result_bind_ok (result_readBe16 ..), Access.result_bind_ok (result_readBe16 ..),
    Access.result_bind_ok (Access.result_get ..), Access.result_ite, Access.result_ite,
    Access.result_ite, Access.result_ite, Access.result_bind_ok (Access.result_get ..)]
  dsimp only
  rw [Access.result_ite, Access.result_ite, Access.result_bind_ok (Access.result_get ..),
    Access.result_ite, Access.result_bind_ok (Access.result_get ..), Access.result_ite,
    Access.result_ite, Access.result_bind_ok hregisters]
  rfl

/-- What is read before the registers is there, and so are they unless the quantity comes
round. -/
theorem inBounds_decodeReadResponse {adu : Bytes} {ctx : ResponseContext}
    (h : IsNormal adu ctx.reduced → ctx.expectedQuantity.toNat < 32768) :
    (decodeReadResponse adu ctx).InBounds adu.length := by
  refine Access.inBounds_guard fun hshort => ?_
  have hlong : 9 ≤ adu.length := Nat.not_lt.mp hshort
  rw [Access.inBounds_bind_ok (result_readBe16 ..), Access.inBounds_bind_ok (result_readBe16 ..),
    Access.inBounds_bind_ok (result_readBe16 ..), Access.inBounds_bind_ok (Access.result_get ..),
    inBounds_readBe16, inBounds_readBe16, inBounds_readBe16, Access.inBounds_get]
  refine ⟨by omega, by omega, by omega, by omega, ?_⟩
  refine Access.inBounds_guard fun hprotocol => Access.inBounds_guard fun htid =>
    Access.inBounds_guard fun hunit => Access.inBounds_guard fun hlength => ?_
  rw [Access.inBounds_bind_ok (Access.result_get ..), Access.inBounds_get]
  refine ⟨by omega, ?_⟩
  dsimp only
  split
  next =>
    refine Access.inBounds_guard fun _ => ?_
    rw [Access.inBounds_bind_ok (Access.result_get ..), Access.inBounds_get]
    exact ⟨by omega, Access.inBounds_pure _ _⟩
  next =>
    refine Access.inBounds_guard fun hcode => ?_
    rw [Access.inBounds_bind_ok (Access.result_get ..), Access.inBounds_get]
    refine ⟨by omega, Access.inBounds_guard fun hcount => Access.inBounds_guard fun hfits => ?_⟩
    rw [Access.inBounds_bind_ok (Access.result_collect (fun _ => result_readBe16 ..) _),
      Access.inBounds_collect fun _ => result_readBe16 ..]
    refine ⟨fun i hi => ?_, Access.inBounds_pure _ _⟩
    have hheader := headerMatches_iff.mpr
      ⟨not_not.mp hprotocol, not_not.mp htid, not_not.mp hunit, not_not.mp hlength⟩
    have hchecked := registersChecked_iff_pdu.mpr
      ⟨not_not.mp hcode, not_not.mp hcount, not_not.mp hfits⟩
    have hnormal := registersChecked_iff.mp ⟨⟨hlong, hheader⟩, hchecked⟩
    have hsize := (reduced_eq_self (h hnormal) ▸ hnormal).size
    have hlt := List.mem_range.mp hi
    rw [inBounds_readBe16, kMbapHeaderSize]
    omega

/-- The registers are read up to a quantity that the frame does not have. -/
theorem not_inBounds_decodeReadResponse {adu : Bytes} {ctx : ResponseContext}
    (h : IsNormal adu ctx.reduced) (hquantity : 32768 ≤ ctx.expectedQuantity.toNat) :
    ¬(decodeReadResponse adu ctx).InBounds adu.length := by
  obtain ⟨⟨hlong, hheader⟩, hchecked⟩ := registersChecked_iff.mpr h
  obtain ⟨-, -, -, hlength⟩ := headerMatches_iff.mp hheader
  obtain ⟨-, -, hfits⟩ := registersChecked_iff_pdu.mp hchecked
  have hshort : ¬adu.length < kMbapHeaderSize + 2 := Nat.not_lt.mpr hlong
  rw [decodeReadResponse, if_neg hshort, Access.inBounds_bind_ok (result_readBe16 ..),
    Access.inBounds_bind_ok (result_readBe16 ..), Access.inBounds_bind_ok (result_readBe16 ..),
    Access.inBounds_bind_ok (Access.result_get ..), if_neg (not_not_intro hheader.protocolId),
    if_neg (not_not_intro hheader.transactionId), if_neg (not_not_intro hheader.unitId),
    if_neg (not_not_intro hlength), Access.inBounds_bind_ok (Access.result_get ..)]
  dsimp only
  rw [if_neg (not_not_intro (not_hasExceptionCode hchecked.functionCode)),
    if_neg (not_not_intro hchecked.functionCode),
    Access.inBounds_bind_ok (Access.result_get ..), if_neg (not_not_intro hchecked.byteCount),
    if_neg (not_not_intro hfits),
    Access.inBounds_bind_ok (Access.result_collect (fun _ => result_readBe16 ..) _),
    Access.inBounds_collect fun _ => result_readBe16 ..]
  rintro ⟨-, -, -, -, -, -, hregisters, -⟩
  have hlast := hregisters (ctx.expectedQuantity.toNat - 1) (List.mem_range.mpr (by omega))
  have hsize := h.size
  have hlt := ctx.expectedQuantity.isLt
  rw [inBounds_readBe16, kMbapHeaderSize] at hlast
  rw [toNat_reduced] at hsize
  omega

end Traced

/-- All bytes that are indexed are in the frame, and the registers are as many as expected. -/
structure Safe (adu : Bytes) (ctx : ResponseContext) : Prop where
  inBounds : (Traced.decodeReadResponse adu ctx).InBounds adu.length
  registers : ∀ r, decodeReadResponse adu ctx = .ok r → r.registers ≠ [] →
    r.registers.length = ctx.expectedQuantity.toNat

/-- Registers that are decoded are as many as expected, whether they were there or not. -/
theorem length_registers {adu : Bytes} {ctx : ResponseContext} {r : DecodedReadResponse}
    (h : decodeReadResponse adu ctx = .ok r) (hregisters : r.registers ≠ []) :
    r.registers.length = ctx.expectedQuantity.toNat := by
  obtain ⟨-, rfl⟩ | ⟨-, rfl⟩ := decodeReadResponse_ok.mp h
  · exact absurd rfl hregisters
  · rw [readRegisters, List.length_map, List.length_range]

/-- The decoder is safe but for a quantity of 32768 or more, and a normal response to a request
for 32768 registers less. -/
theorem safe_iff (adu : Bytes) (ctx : ResponseContext) :
    Safe adu ctx ↔ ¬(32768 ≤ ctx.expectedQuantity.toNat ∧ IsNormal adu ctx.reduced) := by
  refine ⟨fun h hround => ?_, fun h => ⟨?_, fun r => length_registers⟩⟩
  · exact Traced.not_inBounds_decodeReadResponse hround.2 hround.1 h.inBounds
  · refine Traced.inBounds_decodeReadResponse fun hnormal => Nat.lt_of_not_le fun hround => ?_
    exact h ⟨hround, hnormal⟩

/-- A response with no registers, and 32768 of them are read. -/
theorem not_safe_nine_bytes :
    ¬Safe [0, 1, 0, 0, 0, 3, 1, 0x03, 0] { oneRegister with expectedQuantity := 0x8000 } := by
  intro h
  refine Traced.not_inBounds_decodeReadResponse ⟨⟨?_, ?_, ?_, ?_⟩, ?_, ?_, ?_⟩ ?_ h.inBounds
  all_goals decide

end Modbus
