import Mathlib.Data.List.Basic

/-!
# The Modbus reader

The interface between the poll loop and a client: one read of registers, answered with
their values or with an error.
-/

namespace Modbus

/-- A call of the reader. -/
inductive Request where
  | readHoldingRegisters (unitId : BitVec 8) (address quantity : BitVec 16)
  | readInputRegisters (unitId : BitVec 8) (address quantity : BitVec 16)

inductive IoError where
  | ConnectionFailed
  | Timeout
  | WriteFailed
  | ReadFailed
  | Disconnected
  | DecodeFailed
  | ServerException
  | InvalidQuantity

/-- What a reader answers. -/
abbrev Reader := Request → Except IoError (List (BitVec 16))

end Modbus
