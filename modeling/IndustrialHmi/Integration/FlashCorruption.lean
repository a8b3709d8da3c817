import IndustrialHmi.Integration.FlashStream
import IndustrialHmi.Theory.Crc
import Mathlib.Data.List.Nodup

/-!
# Frames with flipped bits

The bit loop of `crc16CcittFalse` is a register of 16 bits with the generator `0x1021`.  A flipped
bit of a frame changes the difference between the CRC that was received and the one that is
computed, by a power of the generator that belongs to its place (`syndrome_flipBit`).

The generator has the lowest bit and odd weight, and none of its first 2135 powers is 1.  That is
enough for the longest frame.  So when one, two or three bits are flipped the two are different,
and the parser takes the `0xA5` for a false start (`flips_are_caught`).
-/

namespace Flash

open LittleEndian Incremental

/-! ## The checksum as a register -/

/-- The polynomial of `crc16CcittFalse`. -/
def generator : BitVec 16 := 0x1021#16

/-- The low half of the register of the source; the mask clears the rest. -/
def register (crc : UInt32) : BitVec 16 := crc.toBitVec.setWidth 16

theorem topBit_iff (x : BitVec 32) :
    x &&& kCrcTopBit.toBitVec ≠ 0#32 ↔ (x.setWidth 16).msb = true := by
  have htop : kCrcTopBit.toBitVec = BitVec.twoPow 32 15 := by decide
  have hmsb : (x.setWidth 16).msb = x.getLsbD 15 := by
    rw [BitVec.msb_eq_getLsbD_last, BitVec.getLsbD_setWidth]
    rfl
  rw [htop, BitVec.and_twoPow, hmsb]
  cases x.getLsbD 15 with
  | true => exact iff_of_true (by decide) rfl
  | false => exact iff_of_false (by decide) Bool.false_ne_true

theorem setWidth_and_mask (x : BitVec 32) :
    (x &&& kCrc16Mask.toBitVec).setWidth 16 = x.setWidth 16 := by
  have hmask : kCrc16Mask.toBitVec.setWidth 16 = BitVec.allOnes 16 := by decide
  rw [BitVec.setWidth_and, hmask, BitVec.and_allOnes]

theorem register_crc16Bit (crc : UInt32) :
    register (crc16Bit crc) = Crc.shift generator (register crc) := by
  have hshift : (crc <<< 1).toBitVec.setWidth 16 = register crc <<< 1 := by
    rw [UInt32.toBitVec_shiftLeft, register]
    apply BitVec.eq_of_getLsbD_eq
    intro i hi
    simp
  have htop : crc &&& kCrcTopBit ≠ 0 ↔ (register crc).msb = true := by
    rw [register, ← topBit_iff, ← UInt32.toBitVec_and]
    exact not_congr UInt32.toBitVec_inj.symm
  rw [register, crc16Bit, UInt32.toBitVec_and, setWidth_and_mask, Crc.shift]
  by_cases h : crc &&& kCrcTopBit ≠ 0
  · rw [if_pos h, if_pos (htop.mp h), UInt32.toBitVec_xor, BitVec.setWidth_xor, hshift]
    rfl
  · rw [if_neg h, if_neg (mt htop.mpr h), hshift, BitVec.xor_zero]

theorem register_crc16Byte (crc : UInt32) (b : UInt8) :
    register (crc16Byte crc b) = Crc.feed generator (register crc) b.toBitVec := by
  have hbits : Function.Semiconj register crc16Bit (Crc.shift generator) := register_crc16Bit
  have hbyte : register (b.toUInt32 <<< kBitsPerByte) = b.toBitVec.setWidth 16 <<< (16 - 8) := by
    rw [register, UInt32.toBitVec_shiftLeft, UInt8.toBitVec_toUInt32]
    apply BitVec.eq_of_getLsbD_eq
    intro i hi
    simp [kBitsPerByte]
  have hxor : register (crc ^^^ (b.toUInt32 <<< kBitsPerByte)) =
      register crc ^^^ register (b.toUInt32 <<< kBitsPerByte) := BitVec.setWidth_xor
  rw [crc16Byte, Crc.feed, ← hbyte, ← hxor]
  exact hbits.iterate_right 8 _

/-- The checksum is what the register holds at the end. -/
theorem toBitVec_crc16CcittFalse (bytes : Bytes) :
    (crc16CcittFalse bytes).toBitVec =
      Crc.run generator 0xFFFF#16 (bytes.map UInt8.toBitVec) := by
  have hrun : ∀ crc, register (bytes.foldl crc16Byte crc) =
      Crc.run generator (register crc) (bytes.map UInt8.toBitVec) := by
    induction bytes with
    | nil => exact fun _ => rfl
    | cons b bytes ih =>
        intro crc
        rw [List.foldl_cons, ih, register_crc16Byte]
        rfl
  exact hrun kCrcInitial

/-! ## Flipped bits -/

/-- One bit is flipped: a byte, and a bit of it. -/
def flipBit (bytes : Bytes) (place : Nat × Nat) : Bytes :=
  bytes.modify place.1 (· ^^^ 1 <<< UInt8.ofNat place.2)

def flipBits (bytes : Bytes) (places : List (Nat × Nat)) : Bytes := places.foldl flipBit bytes

@[simp] theorem length_flipBit (bytes : Bytes) (place : Nat × Nat) :
    (flipBit bytes place).length = bytes.length := List.length_modify _ _ _

@[simp] theorem length_flipBits (bytes : Bytes) (places : List (Nat × Nat)) :
    (flipBits bytes places).length = bytes.length := by
  induction places generalizing bytes with
  | nil => rfl
  | cons place places ih => exact (ih _).trans (length_flipBit bytes place)

/-- The other bytes are as they were. -/
theorem getD_flipBit {bytes : Bytes} {place : Nat × Nat} {i : Nat} (h : place.1 ≠ i) :
    (flipBit bytes place).getD i 0 = bytes.getD i 0 := by
  rw [flipBit, List.getD_eq_getElem?_getD, List.getElem?_modify_ne _ _ h,
    List.getD_eq_getElem?_getD]

theorem getD_flipBits {bytes : Bytes} {places : List (Nat × Nat)} {i : Nat}
    (h : ∀ place ∈ places, place.1 ≠ i) : (flipBits bytes places).getD i 0 = bytes.getD i 0 := by
  induction places generalizing bytes with
  | nil => rfl
  | cons place places ih =>
      refine (ih fun place' hplace' => h place' (List.mem_cons_of_mem _ hplace')).trans ?_
      exact getD_flipBit (h place List.mem_cons_self)

theorem toBitVec_bit {k : Nat} (h : k < 8) :
    ((1 : UInt8) <<< UInt8.ofNat k).toBitVec = BitVec.twoPow 8 k := by
  have hall : ∀ k : Fin 8,
      ((1 : UInt8) <<< UInt8.ofNat k.val).toBitVec = BitVec.twoPow 8 k.val := by
    decide
  exact hall ⟨k, h⟩

theorem map_toBitVec_flipBit (bytes : Bytes) (i : Nat) {k : Nat} (h : k < 8) :
    (flipBit bytes (i, k)).map UInt8.toBitVec =
      (bytes.map UInt8.toBitVec).modify i (· ^^^ BitVec.twoPow 8 k) := by
  refine List.ext_getElem? fun j => ?_
  rw [flipBit, List.getElem?_map, List.getElem?_modify, List.getElem?_modify, List.getElem?_map]
  cases bytes[j]? with
  | none => rfl
  | some b =>
      refine congrArg some ?_
      show (if i = j then b ^^^ 1 <<< UInt8.ofNat k else b).toBitVec =
        if i = j then b.toBitVec ^^^ BitVec.twoPow 8 k else b.toBitVec
      by_cases hij : i = j
      · rw [if_pos hij, if_pos hij, UInt8.toBitVec_xor, toBitVec_bit h]
      · rw [if_neg hij, if_neg hij]

/-! ## The difference of the two checksums -/

/-- The CRC that was received behind a body of `n` bytes, and the one that is computed. -/
def receivedCrc (bytes : Bytes) (n : Nat) : UInt16 := readLittleEndian bytes (kTypeOffset + n)

def computedCrc (bytes : Bytes) (n : Nat) : UInt16 :=
  crc16CcittFalse ((bytes.drop kTypeOffset).take n)

def syndrome (bytes : Bytes) (n : Nat) : BitVec 16 :=
  (receivedCrc bytes n).toBitVec ^^^ (computedCrc bytes n).toBitVec

theorem receivedCrc_eq_iff (bytes : Bytes) (n : Nat) :
    receivedCrc bytes n = computedCrc bytes n ↔ syndrome bytes n = 0#16 := by
  rw [syndrome, BitVec.xor_eq_zero_iff, UInt16.toBitVec_inj]

theorem toBitVec_readLittleEndian (buf : Bytes) (offset : Nat) :
    (readLittleEndian buf offset).toBitVec =
      (buf.getD offset 0).toBitVec.setWidth 16 |||
        (buf.getD (offset + 1) 0).toBitVec.setWidth 16 <<< 8 := by
  generalize hlow : buf.getD offset 0 = low
  generalize hhigh : buf.getD (offset + 1) 0 = high
  rw [readLittleEndian, hlow, hhigh]
  apply BitVec.eq_of_getLsbD_eq
  intro i hi
  simp [kBitsPerByte]

/-- A bit of the low or of the high byte is that bit of the word. -/
theorem flip_low (low high : BitVec 8) {k : Nat} (h : k < 8) :
    (low ^^^ BitVec.twoPow 8 k).setWidth 16 ||| high.setWidth 16 <<< 8 =
      (low.setWidth 16 ||| high.setWidth 16 <<< 8) ^^^ BitVec.twoPow 16 k := by
  apply BitVec.eq_of_getLsbD_eq
  intro i hi
  simp only [BitVec.getLsbD_or, BitVec.getLsbD_xor, BitVec.getLsbD_setWidth,
    BitVec.getLsbD_shiftLeft, BitVec.getLsbD_twoPow]
  by_cases hik : k = i
  · subst hik
    simp [h, hi]
  · simp [hik]

theorem flip_high (low high : BitVec 8) {k : Nat} (h : k < 8) :
    low.setWidth 16 ||| (high ^^^ BitVec.twoPow 8 k).setWidth 16 <<< 8 =
      (low.setWidth 16 ||| high.setWidth 16 <<< 8) ^^^ BitVec.twoPow 16 (8 + k) := by
  apply BitVec.eq_of_getLsbD_eq
  intro i hi
  simp only [BitVec.getLsbD_or, BitVec.getLsbD_xor, BitVec.getLsbD_setWidth,
    BitVec.getLsbD_shiftLeft, BitVec.getLsbD_twoPow]
  by_cases hik : 8 + k = i
  · subst hik
    have hword : k < 16 := Nat.lt_trans h (by decide)
    have habove : ¬8 + k < 8 := Nat.not_lt.mpr (Nat.le_add_right 8 k)
    simp [h, hi, hword, habove]
  · have hoff : k ≠ i - 8 ∨ i < 8 := by omega
    rcases hoff with hoff | hoff
    · simp [hik, hoff]
    · simp [hik, hoff]

/-- How many shifts a bit is away from the end: the CRC comes after the body, low byte first. -/
def exponent (n : Nat) (place : Nat × Nat) : Nat :=
  if place.1 ≤ n then 8 * (n - (place.1 - 1)) + (8 + place.2)
  else 8 * (place.1 - (n + 1)) + place.2

/-- A bit of the body or of the CRC. -/
structure InSum (n : Nat) (place : Nat × Nat) : Prop where
  one_le : 1 ≤ place.1
  lt : place.1 < n + 3
  bit_lt : place.2 < 8

theorem exponent_lt {n : Nat} {place : Nat × Nat} (h : InSum n place) :
    exponent n place < 8 * n + 16 := by
  obtain ⟨hone, hlt, hbit⟩ := h
  rw [exponent]
  split <;> omega

theorem exponent_injOn {n : Nat} {place place' : Nat × Nat} (h : InSum n place)
    (h' : InSum n place') (heq : exponent n place = exponent n place') : place = place' := by
  obtain ⟨hone, hlt, hbit⟩ := h
  obtain ⟨hone', hlt', hbit'⟩ := h'
  obtain ⟨i, k⟩ := place
  obtain ⟨i', k'⟩ := place'
  dsimp only at hone hlt hbit hone' hlt' hbit'
  have hboth : i = i' ∧ k = k' := by
    simp only [exponent] at heq
    split at heq <;> split at heq <;> omega
  rw [hboth.1, hboth.2]

theorem receivedCrc_flipBit_body {n i : Nat} (hi : i ≤ n) (bytes : Bytes) (k : Nat) :
    receivedCrc (flipBit bytes (i, k)) n = receivedCrc bytes n := by
  rw [receivedCrc, receivedCrc, readLittleEndian, readLittleEndian, kTypeOffset,
    getD_flipBit (by show i ≠ _; omega), getD_flipBit (by show i ≠ _; omega)]

/-- The body without the place of the start byte. -/
theorem body_flipBit {i : Nat} (hi : 1 ≤ i) (bytes : Bytes) (n k : Nat) :
    ((flipBit bytes (i, k)).drop kTypeOffset).take n =
      flipBit ((bytes.drop kTypeOffset).take n) (i - 1, k) := by
  rw [flipBit, flipBit, kTypeOffset, List.drop_modify_of_ge _ _ _ _ hi, List.take_modify]

theorem computedCrc_flipBit_crc {n i : Nat} (hi : n < i) (bytes : Bytes) (k : Nat) :
    computedCrc (flipBit bytes (i, k)) n = computedCrc bytes n := by
  have hlength : ((bytes.drop kTypeOffset).take n).length ≤ i - 1 :=
    (List.length_take_le _ _).trans (Nat.le_sub_one_of_lt hi)
  rw [computedCrc, computedCrc, body_flipBit (Nat.one_le_of_lt hi), flipBit,
    List.modify_eq_self hlength]

/-- A flipped bit of the body changes the CRC that is computed. -/
theorem computedCrc_flipBit_body {n i k : Nat} (hone : 1 ≤ i) (hi : i ≤ n) (hk : k < 8)
    {bytes : Bytes} (hlength : n < bytes.length) :
    (computedCrc (flipBit bytes (i, k)) n).toBitVec =
      (computedCrc bytes n).toBitVec ^^^ Crc.pow generator (exponent n (i, k)) := by
  have hbody : (((bytes.drop kTypeOffset).take n).map UInt8.toBitVec).length = n := by
    rw [List.length_map, List.length_take, List.length_drop, kTypeOffset]
    omega
  rw [computedCrc, body_flipBit hone, toBitVec_crc16CcittFalse, map_toBitVec_flipBit _ _ hk,
    Crc.run_flip generator _ (by decide) (by rw [hbody]; omega) hk, hbody, computedCrc,
    toBitVec_crc16CcittFalse, exponent, if_pos hi]

/-- A flipped bit of the CRC changes the CRC that is received. -/
theorem receivedCrc_flipBit_crc {n i k : Nat} (hi : n < i) (hlt : i < n + 3) (hk : k < 8)
    {bytes : Bytes} (hlength : n + 3 ≤ bytes.length) :
    (receivedCrc (flipBit bytes (i, k)) n).toBitVec =
      (receivedCrc bytes n).toBitVec ^^^ Crc.pow generator (exponent n (i, k)) := by
  -- The byte of the bit, and what becomes of it.
  have hbyte : (flipBit bytes (i, k)).getD i 0 = bytes.getD i 0 ^^^ 1 <<< UInt8.ofNat k := by
    rw [flipBit, List.getD_eq_getElem?_getD, List.getElem?_modify_eq,
      List.getElem?_eq_getElem (by omega), List.getD_eq_getElem _ _ (by omega)]
    rfl
  have hexponent : exponent n (i, k) = 8 * (i - (n + 1)) + k := if_neg (Nat.not_le.mpr hi)
  have hpow : ∀ {j : Nat}, j < 16 → Crc.pow generator j = BitVec.twoPow 16 j :=
    fun hj => Crc.pow_eq_twoPow generator hj
  rw [receivedCrc, receivedCrc, toBitVec_readLittleEndian, toBitVec_readLittleEndian, hexponent]
  obtain rfl | rfl : i = kTypeOffset + n ∨ i = kTypeOffset + n + 1 := by
    rw [kTypeOffset]
    omega
  · have hother : (flipBit bytes (kTypeOffset + n, k)).getD (kTypeOffset + n + 1) 0 =
        bytes.getD (kTypeOffset + n + 1) 0 := getD_flipBit (Nat.ne_of_lt (Nat.lt_succ_self _))
    have hshifts : 8 * (kTypeOffset + n - (n + 1)) + k = k := by
      rw [kTypeOffset]
      omega
    rw [hbyte, hother, UInt8.toBitVec_xor, toBitVec_bit hk, flip_low _ _ hk, hshifts,
      hpow (by omega)]
  · have hother : (flipBit bytes (kTypeOffset + n + 1, k)).getD (kTypeOffset + n) 0 =
        bytes.getD (kTypeOffset + n) 0 := getD_flipBit (Nat.ne_of_gt (Nat.lt_succ_self _))
    have hshifts : 8 * (kTypeOffset + n + 1 - (n + 1)) + k = 8 + k := by
      rw [kTypeOffset]
      omega
    rw [hbyte, hother, UInt8.toBitVec_xor, toBitVec_bit hk, flip_high _ _ hk, hshifts,
      hpow (by omega)]

/-- A flipped bit changes the difference by the power of its place. -/
theorem syndrome_flipBit {n : Nat} {place : Nat × Nat} (h : InSum n place) {bytes : Bytes}
    (hlength : n + 3 ≤ bytes.length) :
    syndrome (flipBit bytes place) n =
      syndrome bytes n ^^^ Crc.pow generator (exponent n place) := by
  obtain ⟨hone, hlt, hbit⟩ := h
  obtain ⟨i, k⟩ := place
  rw [syndrome, syndrome]
  by_cases hi : i ≤ n
  · rw [receivedCrc_flipBit_body hi, computedCrc_flipBit_body hone hi hbit (by omega)]
    exact (BitVec.xor_assoc _ _ _).symm
  · rw [computedCrc_flipBit_crc (Nat.not_le.mp hi),
      receivedCrc_flipBit_crc (Nat.not_le.mp hi) hlt hbit hlength, BitVec.xor_assoc,
      BitVec.xor_assoc, BitVec.xor_comm (Crc.pow generator _)]

theorem syndrome_flipBits {n : Nat} {places : List (Nat × Nat)}
    (h : ∀ place ∈ places, InSum n place) {bytes : Bytes} (hlength : n + 3 ≤ bytes.length) :
    syndrome (flipBits bytes places) n =
      syndrome bytes n ^^^ Crc.xorAll (places.map fun place =>
        Crc.pow generator (exponent n place)) := by
  induction places generalizing bytes with
  | nil => exact (BitVec.xor_zero).symm
  | cons place places ih =>
      have hrest := ih (fun p hp => h p (List.mem_cons_of_mem _ hp))
        (hlength.trans (Nat.le_of_eq (length_flipBit bytes place).symm))
      rw [syndrome_flipBit (h place List.mem_cons_self) hlength, BitVec.xor_assoc] at hrest
      exact hrest

/-! ## The generator -/

theorem generator_low : generator.getLsbD 0 = true := by decide

theorem generator_odd : Crc.odd generator = true := by decide

/-- The order of the generator exceeds the bits of the longest frame. -/
theorem pow_generator_ne_one {d : Nat} (hpos : 0 < d)
    (hlt : d < 8 * (5 + kFlashMaxPayloadBytes) + 16) : Crc.pow generator d ≠ 1#16 := by
  have hnone : Crc.noneIsOne generator 2135 (Crc.pow generator 1) = true := by decide +kernel
  rw [kFlashMaxPayloadBytes] at hlt
  exact Crc.pow_ne_one hnone hpos (by omega)

/-! ## Damaged frames -/

/-- One, two or three bits of the TYPE, SEQ, PAYLOAD or CRC bytes of a frame. -/
structure FewFlips (f : FlashFrame) (places : List (Nat × Nat)) : Prop where
  nonempty : places ≠ []
  few : places.length ≤ 3
  distinct : places.Nodup
  field : ∀ place ∈ places, kTypeOffset ≤ place.1 ∧ place.1 < kLenOffset ∨
    kFlashHeaderBytes ≤ place.1 ∧
      place.1 < kFlashHeaderBytes + f.payload.length + kFlashTrailerBytes
  bit_lt : ∀ place ∈ places, place.2 < 8

theorem FewFlips.inSum {f : FlashFrame} {places : List (Nat × Nat)} (h : FewFlips f places) :
    ∀ place ∈ places, InSum (5 + f.payload.length) place := by
  intro place hplace
  have hfield := h.field place hplace
  simp only [kTypeOffset, kLenOffset, kFlashHeaderBytes, kFlashTrailerBytes] at hfield
  exact ⟨by omega, by omega, h.bit_lt place hplace⟩

/-- The bytes that say where a frame begins and how long it is stay as they were. -/
theorem FewFlips.getD_eq {f : FlashFrame} {places : List (Nat × Nat)} (h : FewFlips f places)
    {i : Nat} (hi : i < kTypeOffset ∨ kLenOffset ≤ i ∧ i < kFlashHeaderBytes) (bytes : Bytes) :
    (flipBits bytes places).getD i 0 = bytes.getD i 0 := by
  refine getD_flipBits fun place hplace => ?_
  have hfield := h.field place hplace
  rintro rfl
  simp only [kTypeOffset, kLenOffset, kFlashHeaderBytes, kFlashTrailerBytes] at hfield hi
  omega

/-- The CRC comes behind the header and the payload. -/
theorem crcOffset_eq (f : FlashFrame) :
    kTypeOffset + (5 + f.payload.length) = kFlashHeaderBytes + f.payload.length := by
  rw [kTypeOffset, kFlashHeaderBytes]
  omega

theorem syndrome_frameBytes (f : FlashFrame) :
    syndrome (frameBytes f) (5 + f.payload.length) = 0#16 := by
  have hbody : (frameBody f).length = 5 + f.payload.length := frameBody_length f
  have hreceived := readCrc_frameBytes f []
  rw [List.append_nil, ← crcOffset_eq] at hreceived
  have hcomputed : computedCrc (frameBytes f) (5 + f.payload.length) =
      crc16CcittFalse (frameBody f) := by
    rw [computedCrc, frameBytes_eq, kTypeOffset, List.drop_succ_cons, List.drop_zero, ← hbody,
      List.take_left]
  exact (receivedCrc_eq_iff _ _).mp (hreceived.trans hcomputed.symm)

/-- The sum of the powers of the places is what makes the two CRCs differ. -/
theorem FewFlips.receivedCrc_ne {f : FlashFrame} {places : List (Nat × Nat)}
    (h : FewFlips f places) (hfits : f.payload.length ≤ kFlashMaxPayloadBytes) :
    receivedCrc (flipBits (frameBytes f) places) (5 + f.payload.length) ≠
      computedCrc (flipBits (frameBytes f) places) (5 + f.payload.length) := by
  have hlength : 5 + f.payload.length + 3 ≤ (frameBytes f).length := by
    rw [frameBytes_length, kFlashHeaderBytes, kFlashTrailerBytes]
    omega
  have hpowers : (places.map fun place =>
      Crc.pow generator (exponent (5 + f.payload.length) place)) =
        (places.map (exponent (5 + f.payload.length))).map (Crc.pow generator) := by
    rw [List.map_map]
    rfl
  rw [Ne, receivedCrc_eq_iff, syndrome_flipBits h.inSum hlength, syndrome_frameBytes,
    BitVec.zero_xor, hpowers]
  refine Crc.xorAll_pow_ne_zero generator_low generator_odd (by decide)
    (fun d => pow_generator_ne_one) ?_ ?_ ?_ ?_
  · exact fun hnil => h.nonempty (List.map_eq_nil_iff.mp hnil)
  · rw [List.length_map]
    exact h.few
  · refine List.Nodup.map_on (fun place hplace place' hplace' heq => ?_) h.distinct
    exact exponent_injOn (h.inSum place hplace) (h.inSum place' hplace') heq
  · intro e he
    obtain ⟨place, hplace, rfl⟩ := List.mem_map.mp he
    have hlt := exponent_lt (h.inSum place hplace)
    omega

/-- The parser drops the start byte of a damaged frame. -/
theorem FewFlips.nextToken_eq {f : FlashFrame} {places : List (Nat × Nat)}
    (h : FewFlips f places) (hfits : f.payload.length ≤ kFlashMaxPayloadBytes) (rest : Bytes) :
    nextToken (flipBits (frameBytes f) places ++ rest) = some (.falseStart, 1) := by
  have hcrc := h.receivedCrc_ne hfits
  have hlength : (flipBits (frameBytes f) places).length =
      kFlashHeaderBytes + f.payload.length + kFlashTrailerBytes :=
    (length_flipBits _ _).trans (frameBytes_length f)
  have hstart : (flipBits (frameBytes f) places).getD 0 0 = kFlashStartByte := by
    rw [h.getD_eq (Or.inl (by decide)), frameBytes_eq]
    rfl
  have hlen : (readLittleEndian (flipBits (frameBytes f) places) kLenOffset).toNat =
      f.payload.length := by
    have hframe := readLen_frameBytes hfits []
    rw [List.append_nil, readLittleEndian] at hframe
    rw [readLittleEndian, h.getD_eq (Or.inr (by decide)), h.getD_eq (Or.inr (by decide)), hframe]
  refine nextToken_stable rest ?_
  rw [receivedCrc, computedCrc, crcOffset_eq] at hcrc
  generalize flipBits (frameBytes f) places = damaged at hcrc hlength hstart hlen ⊢
  cases damaged with
  | nil =>
      rw [List.length_nil, kFlashHeaderBytes, kFlashTrailerBytes] at hlength
      omega
  | cons b damaged =>
      obtain rfl : b = kFlashStartByte := hstart
      have hbody : kFlashHeaderBytes + f.payload.length - 1 = 5 + f.payload.length := by
        rw [kFlashHeaderBytes]
        omega
      refine nextToken_of_turn (.badCrc hlen hfits (Nat.le_of_eq hlength.symm) ?_)
      rw [hbody]
      exact hcrc

/-- A false start is counted, and the parser goes on behind it. -/
theorem consume_falseStart {bytes : Bytes} (h : nextToken bytes = some (.falseStart, 1))
    (falseStarts : Nat) :
    ({ buffer := [], falseStarts } : FlashFrameParser).consume bytes =
      ({ buffer := [], falseStarts := falseStarts + 1 } : FlashFrameParser).consume
        bytes.tail := by
  rw [consume_outputOf, consume_outputOf, Scanner.feed, Scanner.feed, List.nil_append,
    List.nil_append, flashScanner.scan_of_some h, List.drop_one]
  dsimp only
  rw [outputOf_falseStart, List.count_cons_self, Nat.add_assoc, Nat.add_comm 1]

/-- One, two or three flipped bits make the two CRCs differ, whatever the frame.  The parser
counts a false start for the `0xA5` and goes on with the byte behind it, so no frame begins
there. -/
theorem flips_are_caught {f : FlashFrame} {bytes : Bytes} (hbytes : encodeFlashFrame f = .ok bytes)
    {places : List (Nat × Nat)} (h : FewFlips f places) (rest : Bytes) (falseStarts : Nat) :
    let damaged := flipBits bytes places
    receivedCrc damaged (5 + f.payload.length) ≠ computedCrc damaged (5 + f.payload.length) ∧
      nextToken (damaged ++ rest) = some (.falseStart, 1) ∧
      ({ buffer := [], falseStarts } : FlashFrameParser).consume (damaged ++ rest) =
        ({ buffer := [], falseStarts := falseStarts + 1 } : FlashFrameParser).consume
          (damaged ++ rest).tail := by
  obtain ⟨hfits, rfl⟩ := encodeFlashFrame_eq_ok.mp hbytes
  have htoken := h.nextToken_eq hfits rest
  exact ⟨h.receivedCrc_ne hfits, htoken, consume_falseStart htoken falseStarts⟩

/-- Three bits of `INFO_REQ`: one of the TYPE, and two of the CRC. -/
theorem flips_are_caught_info_req :
    ({} : FlashFrameParser).consume
        (flipBits [0xA5, 0x01, 0x01, 0x00, 0x00, 0x00, 0xE9, 0xCD] [(1, 0), (6, 7), (7, 3)]) =
      ({ falseStarts := 1 } : FlashFrameParser).consume
        (flipBits [0xA5, 0x01, 0x01, 0x00, 0x00, 0x00, 0xE9, 0xCD]
          [(1, 0), (6, 7), (7, 3)]).tail := by
  have hflips : FewFlips { type := 0x01, seq := 1 } [(1, 0), (6, 7), (7, 3)] :=
    ⟨by decide, by decide, by decide, by decide, by decide⟩
  have hbytes : encodeFlashFrame { type := 0x01, seq := 1 } =
      .ok [0xA5, 0x01, 0x01, 0x00, 0x00, 0x00, 0xE9, 0xCD] := by decide +kernel
  have hcaught := (flips_are_caught hbytes hflips [] 0).2.2
  rw [List.append_nil] at hcaught
  exact hcaught

end Flash
