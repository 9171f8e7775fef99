import Modbus.Proofs.Layout
import Modbus.Proofs.Storing

/-! Typed values through a device. A value that is written to mapped registers is stored in exactly these, and a typed
read of them gives it back. -/
namespace Modbus

namespace Bank

/-- How many cells of a table a value of a tagged type takes: one bit, or the registers of the type. -/
def width? (tag : String) : Bank → Option Nat
  | coils | discreteInputs => some 1
  | holdingRegisters | inputRegisters => (DataType.ofTag? tag).map DataType.width

/-- The value in these cells. -/
def point (tag : String) (bit : UInt8) (order : ByteOrder) : (bank : Bank) → List bank.Cell → Except Error Value
  | coils | discreteInputs => fun bits => .ok (.bool (bits.headD false))
  | holdingRegisters | inputRegisters => fun registers => Value.decode registers tag bit order

variable {σ : Type} [Link σ] {tag : String}

/-- A typed read is a plain read of as many cells as the value takes. -/
theorem readValue_eq (bank : Bank) {width : Nat} (known : bank.width? tag = some width) (slave : UInt8)
    (address : UInt16) (bit : UInt8) (order : ByteOrder) :
    (Client.readValue slave bank.code.toByte address tag bit order : Client.Action σ Value) =
      bank.read slave address (.ofNat width) >>= fun cells => Client.settled (bank.point tag bit order cells) := by
  cases bank with
  | coils | discreteInputs =>
    obtain rfl := Option.some.inj known
    rfl
  | holdingRegisters | inputRegisters =>
    obtain ⟨t, type, rfl⟩ := Option.map_eq_some_iff.mp known
    unfold Client.readValue
    rw [type]
    rfl

end Bank

namespace Client

/-- Registers of a value that are there are read as that value, and reading changes nothing. -/
theorem perform_readValue {c : Client DirectLink} (ready : c.link.Ready) (slave : UInt8) {address : UInt16} {v : Value}
    {order : ByteOrder}
    (held : c.link.device.memory.holding.span? address.toNat v.type.width = some (v.encode order)) {tag : String}
    (own : DataType.ofTag? tag = some v.type) {bit : UInt8} (first : v.type = .bool → bit = 0) :
    let done := c.perform (readValue slave FunctionCode.readHoldingRegisters.toByte address tag bit order)
    done.1 = .ok v ∧ done.2.link.device.memory = c.link.device.memory := by
  intro done
  obtain ⟨-, few⟩ := v.type.width_bounds
  have width : (UInt16.ofNat v.type.width).toNat = v.type.width := Word.toNat_ofNat (by omega)
  have range : UInt16.ofNat v.type.width ≠ 0 ∧ UInt16.ofNat v.type.width ≤ Bank.holdingRegisters.maxQuantity := by
    cases v.type <;> decide
  obtain ⟨outcome, reached⟩ := Bank.holdingRegisters.perform_read ready slave address range
  have holding : c.link.device.memory.table .holdingRegisters = c.link.device.memory.holding := rfl
  rw [holding, width, held] at outcome
  have decoded : Value.decode (v.encode order) tag bit order = .ok v := v.decode_encode_alone own first order
  have known : Bank.holdingRegisters.width? tag = some v.type.width := by
    rw [Bank.width?, own]
    rfl
  let plain := c.perform (Bank.holdingRegisters.read slave address (.ofNat v.type.width))
  have fetched : plain = (.ok (v.encode order), plain.2) := Prod.ext outcome rfl
  have read : done = (.ok v, plain.2) := calc
    done = c.perform (Bank.holdingRegisters.read slave address (.ofNat v.type.width) >>= fun registers =>
        settled (Value.decode registers tag bit order)) :=
      congrArg c.perform (Bank.holdingRegisters.readValue_eq known slave address bit order)
    _ = plain.2.perform (settled (Value.decode (v.encode order) tag bit order)) := perform_bind_ok fetched _
    _ = (.ok v, plain.2) := by rw [perform_settled, decoded]
  rw [read]
  exact ⟨rfl, reached.memory⟩

/-- A typed value that is written to mapped registers is there afterwards: a typed read under any tag of its type, and
for a bool of its first bit, gives exactly it. No other cell of the device has changed. -/
theorem readValue_writeValue {c : Client DirectLink} (ready : c.link.Ready) (slave : UInt8) (address : UInt16)
    (v : Value) (order : ByteOrder)
    (mapped : c.link.device.memory.holding.Maps address.toNat (v.encode order).length) :
    let before := c.link.device.memory
    let written := c.perform (writeValue slave address v order)
    let after := written.2.link.device.memory
    written.1 = .ok () ∧
      (∀ tag bit, DataType.ofTag? tag = some v.type → (v.type = .bool → bit = 0) →
        let reread :=
          written.2.perform (readValue slave FunctionCode.readHoldingRegisters.toByte address tag bit order)
        reread.1 = .ok v ∧ reread.2.link.device.memory = after) ∧
      (∀ other : UInt16, other.toNat < address.toNat ∨ address.toNat + (v.encode order).length ≤ other.toNat →
        after.holding.get? other = before.holding.get? other) ∧
      after.input = before.input ∧ after.coils = before.coils ∧ after.discrete = before.discrete := by
  intro before written after
  have size : (v.encode order).length = v.type.width := v.length_encode order
  obtain ⟨positive, few⟩ := v.type.width_bounds
  have admissible : (Assignment.registers address (v.encode order)).Admissible := by
    refine ⟨?_, ?_⟩ <;> rw [size]
    · exact positive
    · exact Nat.le_trans few (by decide)
  have stores := writeWords_stores slave address (v.encode order)
  obtain ⟨⟨⟩, ok⟩ := stores.succeeds c ready ⟨admissible, mapped⟩
  have stored : after = { before with holding := before.holding.store address (v.encode order) } :=
    stores.effect c () ready ok
  have fits : address.toNat + (v.encode order).length ≤ 0x10000 := mapped.inside admissible.1
  have held : after.holding.span? address.toNat v.type.width = some (v.encode order) := by
    rw [stored, ← size]
    exact before.holding.span?_store fits
  refine ⟨ok, ?_, ?_, ?_⟩
  · intro tag bit own first
    exact perform_readValue (stores.ready c ready) slave held own first
  · intro other outside
    rw [stored]
    exact before.holding.get?_store_of_outside fits outside
  · rw [stored]
    exact ⟨rfl, rfl, rfl⟩

/-- A device with the last three registers. -/
def lastRegisters : Client DirectLink :=
  { link := { device := { holding := ((Device.Table.empty.set 0xFFFD 5).set 0xFFFE 6).set 0xFFFF 7 } } }

/-- A signalling NaN takes the last two registers, low word first, and keeps its payload. Floats have no bits to choose
from, so any bit position will do. -/
theorem readValue_writeValue_nan :
    let written := lastRegisters.perform (writeValue 1 0xFFFE (.f32 ⟨0x7FA12345⟩) .bigEndianSwap)
    written.1 = .ok () ∧
      (written.2.perform (readValue 1 0x03 0xFFFE "Float" 200 .bigEndianSwap)).1 = .ok (.f32 ⟨0x7FA12345⟩) ∧
      written.2.link.device.memory.holding.get? 0xFFFD = some 5 := by
  have mapped : lastRegisters.link.device.memory.holding.Maps (0xFFFE : UInt16).toNat 2 := by decide
  have tag : DataType.ofTag? "Float" = some .float32 := by decide +kernel
  obtain ⟨ok, reread, others, -⟩ :=
    readValue_writeValue (c := lastRegisters) ⟨rfl, rfl⟩ 1 0xFFFE (.f32 ⟨0x7FA12345⟩) .bigEndianSwap mapped
  refine ⟨ok, (reread "Float" 200 tag nofun).1, ?_⟩
  rw [others 0xFFFD (.inl (by decide))]
  decide +kernel

end Client

end Modbus
