import Modbus.Pdu.Requests

/-! A request as its fields, whatever it travels on. Turning it into a message checks that function
code, quantity and payload go together. -/
namespace Modbus

open Protocol (maxWriteCoils maxWriteRegisters)

/-- `data` is what follows the address and the quantity on the wire, without the byte count: nothing
for reads, the word for single writes, packed coils or registers for multiple writes. -/
structure Request where
  slave : UInt8
  function : UInt8
  address : UInt16
  quantity : UInt16
  data : List UInt8 := []
  deriving DecidableEq, Repr

namespace Request

/-- The message of a multiple write whose payload must have `expected` bytes. -/
def multipleWrite (r : Request) (maximum : UInt16) (expected : Nat) : Except Error Pdu :=
  if r.quantity = 0 ∨ maximum < r.quantity then .error (.requestQuantity r.function r.quantity maximum)
  else if r.data.length ≠ expected then .error (.requestPayload r.function expected r.data.length)
  else Pdu.assemble [.functionCode r.function, .address r.address, .quantity r.quantity,
    .byte (.ofNat expected), .data r.data]

def toPdu (r : Request) : Except Error Pdu :=
  match FunctionCode.ofByte? r.function with
  | some .readCoils | some .readDiscreteInputs | some .readHoldingRegisters | some .readInputRegisters =>
    Pdu.readRequest r.function r.address r.quantity
  | some .writeSingleCoil | some .writeSingleRegister =>
    if r.data.length ≠ 2 then .error (.requestPayload r.function 2 r.data.length)
    else Pdu.assemble [.functionCode r.function, .address r.address, .data r.data]
  | some .writeMultipleCoils => r.multipleWrite maxWriteCoils (Bits.byteCount r.quantity.toNat)
  | some .writeMultipleRegisters => r.multipleWrite maxWriteRegisters (2 * r.quantity.toNat)
  | some .readWriteMultipleRegisters | none => .error (.unsupportedFunction r.function)

/-- The word that a device repeats in its answer to a write: the value of a single write, the quantity
of a multiple one. -/
def echoedWord (r : Request) : UInt16 :=
  match FunctionCode.ofByte? r.function, r.data with
  | some .writeSingleCoil, high :: low :: _ | some .writeSingleRegister, high :: low :: _ => Word.ofBytes high low
  | _, _ => r.quantity

end Request

end Modbus
