import IndustrialHmi.Config.ConfigValidator
import IndustrialHmi.Integration.ModbusPollLoop

/-!
# The register map of a configuration

The bootstrap makes the register map out of three blocks of registers.  The slave and the address at
which a block begins are cast to 8 and to 16 bits, and so is the address of each register.  The
validator asks for at least one equipment and for positive scales, and neither for a slave that
fits nor for an address.

Without these two the map reads from another slave or register than the one configured
(`unwrapped_iff`).
-/

namespace Modbus

open Config Numeral

/-! ## The blocks -/

/-- A row for each index of a block. -/
def registerBlock (slaveId : BitVec 8) (base : BitVec 16) (count : ℤ) (field : FieldKind)
    (scale : BitVec 32) : List RegisterMapping :=
  (List.range count.toNat).map fun i : Nat =>
    { slaveId
      type := .HoldingRegister
      address := BitVec.ofNat 16 (base.toNat + i)
      field
      entityId := BitVec.ofNat 32 i
      scale }

section

variable (config : FlatMap)

def slaveId : BitVec 8 := BitVec.ofInt 8 (getModbusSlaveId config)

def enabledBlock : List RegisterMapping :=
  registerBlock (slaveId config) (BitVec.ofInt 16 (getModbusEquipmentBaseAddress config))
    (getModbusEquipmentCount config) .EquipmentEnabled 0x3f800000

def supplyBlock [Lconv] : List RegisterMapping :=
  registerBlock (slaveId config) (BitVec.ofInt 16 (getModbusSupplyBaseAddress config))
    (getModbusEquipmentCount config) .EquipmentSupplyLevel (getModbusSupplyScale config).toBits

def qualityBlock [Lconv] : List RegisterMapping :=
  registerBlock (slaveId config) (BitVec.ofInt 16 (getModbusQualityBaseAddress config))
    (getModbusQualityCount config) .QualityPassRate (getModbusQualityScale config).toBits

def registerMap [Lconv] : List RegisterMapping :=
  enabledBlock config ++ supplyBlock config ++ qualityBlock config

end

/-! ## What was configured -/

/-- A block has as many rows as configured, and each reads the register that was. -/
structure AsConfigured (slave base count : ℤ) (field : FieldKind) (block : List RegisterMapping) :
    Prop where
  length : block.length = count.toNat
  row : ∀ (i : Nat) row, block[i]? = some row →
    (row.slaveId.toNat : ℤ) = slave ∧ (row.address.toNat : ℤ) = base + i ∧ row.field = field

/-- The map has three blocks, and each is as configured. -/
def Unwrapped [Lconv] (config : FlatMap) : Prop :=
  ∃ enabled supply quality, registerMap config = enabled ++ supply ++ quality ∧
    AsConfigured (getModbusSlaveId config) (getModbusEquipmentBaseAddress config)
      (getModbusEquipmentCount config) .EquipmentEnabled enabled ∧
    AsConfigured (getModbusSlaveId config) (getModbusSupplyBaseAddress config)
      (getModbusEquipmentCount config) .EquipmentSupplyLevel supply ∧
    AsConfigured (getModbusSlaveId config) (getModbusQualityBaseAddress config)
      (getModbusQualityCount config) .QualityPassRate quality

/-- The registers of a block have addresses. -/
def Fits (base count : ℤ) : Prop := 0 < count → 0 ≤ base ∧ base + count ≤ 2 ^ 16

theorem length_registerBlock (slaveId : BitVec 8) (base : BitVec 16) (count : ℤ)
    (field : FieldKind) (scale : BitVec 32) :
    (registerBlock slaveId base count field scale).length = count.toNat := by
  rw [registerBlock, List.length_map, List.length_range]

/-- The cast keeps a number exactly when it fits. -/
theorem toNat_ofInt_eq_iff (w : Nat) (i : ℤ) :
    ((BitVec.ofInt w i).toNat : ℤ) = i ↔ 0 ≤ i ∧ i < (2 ^ w : Nat) := by
  have hpos : (0 : ℤ) < (2 ^ w : Nat) := Int.natCast_pos.mpr (Nat.two_pow_pos w)
  rw [BitVec.toNat_ofInt, Int.toNat_of_nonneg (Int.emod_nonneg i hpos.ne')]
  constructor
  · intro h
    rw [← h]
    exact ⟨Int.emod_nonneg i hpos.ne', Int.emod_lt_of_pos i hpos⟩
  · rintro ⟨hlow, hhigh⟩
    exact Int.emod_eq_of_lt hlow hhigh

/-- The rows of a block. -/
theorem getElem?_registerBlock {slaveId : BitVec 8} {base : BitVec 16} {count : ℤ}
    {field : FieldKind} {scale : BitVec 32} (i : Nat) (row : RegisterMapping) :
    (registerBlock slaveId base count field scale)[i]? = some row ↔
      (i : ℤ) < count ∧ row =
        { slaveId
          type := .HoldingRegister
          address := BitVec.ofNat 16 (base.toNat + i)
          field
          entityId := BitVec.ofNat 32 i
          scale } := by
  rw [registerBlock, List.getElem?_map, Option.map_eq_some_iff]
  constructor
  · rintro ⟨j, hj, rfl⟩
    obtain ⟨hlt, rfl⟩ := List.getElem?_eq_some_iff.mp hj
    rw [List.length_range] at hlt
    rw [List.getElem_range]
    exact ⟨by omega, rfl⟩
  · rintro ⟨hlt, rfl⟩
    exact ⟨i, List.getElem?_range (by omega), rfl⟩

/-- The address of a row is the cast of the configured base and the index. -/
theorem toNat_address (base : ℤ) (i : Nat) :
    ((BitVec.ofNat 16 ((BitVec.ofInt 16 base).toNat + i)).toNat : ℤ) = (base + i) % 2 ^ 16 := by
  rw [BitVec.toNat_ofNat, BitVec.toNat_ofInt]
  omega

/-- A block reads the configured registers exactly when slave and addresses fit. -/
theorem asConfigured_iff {slave base count : ℤ} {field : FieldKind} {scale : BitVec 32} :
    AsConfigured slave base count field
        (registerBlock (BitVec.ofInt 8 slave) (BitVec.ofInt 16 base) count field scale) ↔
      (0 < count → 0 ≤ slave ∧ slave < 2 ^ 8) ∧ Fits base count := by
  constructor
  · intro h
    refine ⟨fun hcount => ?_, fun hcount => ?_⟩
    · obtain ⟨hslave, -⟩ := h.row 0 _ ((getElem?_registerBlock 0 _).mpr ⟨by omega, rfl⟩)
      exact (toNat_ofInt_eq_iff 8 slave).mp hslave
    · obtain ⟨-, hfirst, -⟩ := h.row 0 _ ((getElem?_registerBlock 0 _).mpr ⟨by omega, rfl⟩)
      obtain ⟨-, hlast, -⟩ :=
        h.row (count.toNat - 1) _ ((getElem?_registerBlock _ _).mpr ⟨by omega, rfl⟩)
      simp only [toNat_address] at hfirst hlast
      omega
  · rintro ⟨hslave, hfits⟩
    refine ⟨length_registerBlock _ _ _ _ _, fun i row h => ?_⟩
    obtain ⟨hlt, rfl⟩ := (getElem?_registerBlock i row).mp h
    have hcount : 0 < count := by omega
    obtain ⟨hlow, hhigh⟩ := hfits hcount
    refine ⟨(toNat_ofInt_eq_iff 8 slave).mpr (hslave hcount), ?_, rfl⟩
    rw [toNat_address]
    omega

/-- The slave and the addresses of all blocks fit. -/
def Registers (config : FlatMap) : Prop :=
  (0 ≤ getModbusSlaveId config ∧ getModbusSlaveId config < 2 ^ 8) ∧
    Fits (getModbusEquipmentBaseAddress config) (getModbusEquipmentCount config) ∧
    Fits (getModbusSupplyBaseAddress config) (getModbusEquipmentCount config) ∧
    Fits (getModbusQualityBaseAddress config) (getModbusQualityCount config)

/-- The three blocks of the map are the only way to divide it. -/
theorem unwrapped_iff_blocks [Lconv] (config : FlatMap) : Unwrapped config ↔
    AsConfigured (getModbusSlaveId config) (getModbusEquipmentBaseAddress config)
      (getModbusEquipmentCount config) .EquipmentEnabled (enabledBlock config) ∧
    AsConfigured (getModbusSlaveId config) (getModbusSupplyBaseAddress config)
      (getModbusEquipmentCount config) .EquipmentSupplyLevel (supplyBlock config) ∧
    AsConfigured (getModbusSlaveId config) (getModbusQualityBaseAddress config)
      (getModbusQualityCount config) .QualityPassRate (qualityBlock config) := by
  constructor
  · rintro ⟨enabled, supply, quality, hmap, henabled, hsupply, hquality⟩
    have hlength : (enabledBlock config ++ supplyBlock config).length =
        (enabled ++ supply).length := by
      rw [List.length_append, List.length_append, henabled.length, hsupply.length, enabledBlock,
        supplyBlock, length_registerBlock, length_registerBlock]
    obtain ⟨hfront, hlast⟩ := List.append_inj hmap hlength
    obtain ⟨hfirst, hsecond⟩ := List.append_inj hfront (by
      rw [henabled.length, enabledBlock, length_registerBlock])
    rw [hfirst, hsecond, hlast]
    exact ⟨henabled, hsupply, hquality⟩
  · rintro ⟨henabled, hsupply, hquality⟩
    exact ⟨_, _, _, rfl, henabled, hsupply, hquality⟩

theorem unwrapped_iff_registers [Lconv] {config : FlatMap}
    (h : 0 < getModbusEquipmentCount config) : Unwrapped config ↔ Registers config := by
  rw [unwrapped_iff_blocks, enabledBlock, supplyBlock, qualityBlock, slaveId, asConfigured_iff,
    asConfigured_iff, asConfigured_iff, Registers]
  constructor
  · rintro ⟨⟨hslave, henabled⟩, ⟨-, hsupply⟩, -, hquality⟩
    exact ⟨hslave h, henabled, hsupply, hquality⟩
  · rintro ⟨hslave, henabled, hsupply, hquality⟩
    exact ⟨⟨fun _ => hslave, henabled⟩, ⟨fun _ => hslave, hsupply⟩, fun _ => hslave, hquality⟩

/-- The map of a valid configuration reads the configured registers exactly when they fit. -/
theorem unwrapped_iff [Lconv] {config : FlatMap} (hvalid : (validate config).ok = true)
    (henabled : isModbusBackendEnabled config = true) :
    Unwrapped config ↔ Registers config :=
  unwrapped_iff_registers (equipmentCount_pos hvalid henabled)

/-- Modbus is enabled for slave 257. -/
def slave257 : FlatMap := fun key =>
  if key = ascii "network.modbus.enabled" then some (ascii "true")
  else if key = ascii "network.modbus.slave_id" then some (ascii "257")
  else none

/-- Slave 1 is asked. -/
theorem not_unwrapped_slave257 :
    letI := Lconv.c
    (validate slave257).ok = true ∧ isModbusBackendEnabled slave257 = true ∧
      ¬Unwrapped slave257 := by
  let _ := Lconv.c
  refine ⟨by decide +kernel, by decide, fun h => ?_⟩
  have hfits := ((unwrapped_iff_registers (by decide)).mp h).1.2
  exact absurd hfits (by decide)

theorem unwrapped_iff_slave257 : @Unwrapped Lconv.c slave257 ↔ Registers slave257 :=
  @unwrapped_iff Lconv.c _ (by decide +kernel) (by decide)

end Modbus
