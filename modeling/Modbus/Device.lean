import Modbus.Bits
import Modbus.Device.Table
import Modbus.ExceptionCode
import Modbus.FunctionCode
import Modbus.Word

/-! A device with four tables that answers request messages. A request that touches an unmapped address
is refused and changes nothing. -/
namespace Modbus

/-- `seen` holds every request, the newest first. -/
structure Device where
  holding : Device.Table UInt16 := .empty
  input : Device.Table UInt16 := .empty
  coils : Device.Table Bool := .empty
  discrete : Device.Table Bool := .empty
  seen : List (List UInt8) := []

namespace Device

instance : Inhabited Device := ⟨{}⟩

def refusal (function : UInt8) (code : ExceptionCode) : List UInt8 := [function ||| 0x80, code.toByte]

/-- The answer to a read of `count` cells, given how their values are written. -/
def readTable (table : Table α) (payload : List α → List UInt8) (function : UInt8) (body : List UInt8) :
    List UInt8 :=
  match body with
  | [a₁, a₂, c₁, c₂] =>
    match table.span? (Word.ofBytes a₁ a₂).toNat (Word.ofBytes c₁ c₂).toNat with
    | none => refusal function .illegalDataAddress
    | some values => function :: .ofNat (payload values).length :: payload values
  | _ => refusal function .illegalDataValue

/-- A write of one cell. `value?` says what a word stores, if anything. -/
def writeCell (table : Table α) (value? : UInt16 → Option α) (function : UInt8) (body : List UInt8) :
    List UInt8 × Table α :=
  match body with
  | [a₁, a₂, w₁, w₂] =>
    let address := Word.ofBytes a₁ a₂
    if (table.get? address).isNone then (refusal function .illegalDataAddress, table)
    else match value? (Word.ofBytes w₁ w₂) with
      | none => (refusal function .illegalDataValue, table)
      | some value => (function :: body, table.set address value)
  | _ => (refusal function .illegalDataValue, table)

/-- A write of `count` cells, whose values take `size count` bytes. -/
def writeCells (table : Table α) (size : Nat → Nat) (values : List UInt8 → List α) (function : UInt8)
    (body : List UInt8) : List UInt8 × Table α :=
  match body with
  | a₁ :: a₂ :: c₁ :: c₂ :: byteCount :: data =>
    let address := Word.ofBytes a₁ a₂
    let count := (Word.ofBytes c₁ c₂).toNat
    if byteCount.toNat ≠ size count ∨ data.length ≠ byteCount.toNat then
      (refusal function .illegalDataValue, table)
    else if (table.span? address.toNat count).isNone then (refusal function .illegalDataAddress, table)
    else ([function, a₁, a₂, c₁, c₂], table.store address ((values data).take count))
  | _ => (refusal function .illegalDataValue, table)

/-- The only two words that a single coil takes. -/
def coilValue? (word : UInt16) : Option Bool :=
  if word = Protocol.coilOn then some true else if word = Protocol.coilOff then some false else none

def process (d : Device) (request : List UInt8) : List UInt8 × Device :=
  let d := { d with seen := request :: d.seen }
  match request with
  | [] => ([], d)
  | function :: body =>
    match FunctionCode.ofByte? function with
    | some .readCoils => (readTable d.coils Bits.pack function body, d)
    | some .readDiscreteInputs => (readTable d.discrete Bits.pack function body, d)
    | some .readHoldingRegisters => (readTable d.holding (·.flatMap Word.bytes) function body, d)
    | some .readInputRegisters => (readTable d.input (·.flatMap Word.bytes) function body, d)
    | some .writeSingleCoil =>
      let (answer, coils) := writeCell d.coils coilValue? function body
      (answer, { d with coils })
    | some .writeSingleRegister =>
      let (answer, holding) := writeCell d.holding some function body
      (answer, { d with holding })
    | some .writeMultipleCoils =>
      let (answer, coils) := writeCells d.coils Bits.byteCount Bits.unpack function body
      (answer, { d with coils })
    | some .writeMultipleRegisters =>
      let (answer, holding) := writeCells d.holding (2 * ·) Word.ofPairs function body
      (answer, { d with holding })
    | some .readWriteMultipleRegisters | none => (refusal function .illegalFunction, d)

end Device

end Modbus
