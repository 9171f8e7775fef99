import Modbus.Device
import Modbus.Response
import Modbus.Proofs.Packing
import Modbus.Proofs.Request
import Modbus.Proofs.Table

/-! A device as a plain memory of four tables. A read of a mapped range is answered by its values, a write
to one stores its values, and every other request is refused and changes nothing. -/
namespace Modbus

/-- The tables of a device, without its record of requests. -/
structure Memory where
  holding : Device.Table UInt16 := .empty
  input : Device.Table UInt16 := .empty
  coils : Device.Table Bool := .empty
  discrete : Device.Table Bool := .empty

namespace Device

def memory (d : Device) : Memory := ⟨d.holding, d.input, d.coils, d.discrete⟩

end Device

inductive Bank where
  | coils
  | discreteInputs
  | holdingRegisters
  | inputRegisters
  deriving DecidableEq, Repr

namespace Bank

abbrev Cell : Bank → Type
  | coils | discreteInputs => Bool
  | holdingRegisters | inputRegisters => UInt16

def code : Bank → FunctionCode
  | coils => .readCoils
  | discreteInputs => .readDiscreteInputs
  | holdingRegisters => .readHoldingRegisters
  | inputRegisters => .readInputRegisters

def payload : (bank : Bank) → List bank.Cell → List UInt8
  | coils | discreteInputs => Bits.pack
  | holdingRegisters | inputRegisters => fun values => values.flatMap Word.bytes

def parse : (bank : Bank) → Pdu → UInt8 → UInt16 → Except Error (List bank.Cell)
  | coils | discreteInputs => Response.bits
  | holdingRegisters | inputRegisters => Response.registers

def maxQuantity (bank : Bank) : UInt16 := FunctionCode.maxReadQuantity bank.code.toByte

end Bank

def Memory.table (m : Memory) : (bank : Bank) → Device.Table bank.Cell
  | .coils => m.coils
  | .discreteInputs => m.discrete
  | .holdingRegisters => m.holding
  | .inputRegisters => m.input

namespace Device

theorem writeCell_eq {α : Type} (t : Table α) (value? : UInt16 → Option α) (function : UInt8)
    (address word : UInt16) (value : α) (known : value? word = some value) :
    writeCell t value? function (Word.bytes address ++ Word.bytes word) =
      if t.Maps address.toNat 1 then
        (function :: (Word.bytes address ++ Word.bytes word), t.store address [value])
      else (refusal function .illegalDataAddress, t) := by
  simp only [writeCell, Word.bytes, List.cons_append, List.nil_append, Word.ofBytes_high_low, known]
  by_cases mapped : t.Maps address.toNat 1
  · have some := (t.maps_one address).mp mapped
    rw [if_pos mapped, if_neg (by simp [Option.isNone_eq_false_iff.mpr some])]
    rfl
  · have none : (t.get? address).isNone = true := by
      rw [Option.isNone_iff_eq_none, ← Option.not_isSome_iff_eq_none]
      exact fun some => mapped ((t.maps_one address).mpr some)
    rw [if_neg mapped, if_pos none]

theorem writeCells_eq {α : Type} (t : Table α) (size : Nat → Nat) (values : List UInt8 → List α)
    (function : UInt8) (address count : UInt16) (data : List UInt8) (length : data.length = size count.toNat)
    (small : data.length < 256) :
    writeCells t size values function
        (Word.bytes address ++ (Word.bytes count ++ .ofNat data.length :: data)) =
      if t.Maps address.toNat count.toNat then
        (function :: (Word.bytes address ++ Word.bytes count),
          t.store address ((values data).take count.toNat))
      else (refusal function .illegalDataAddress, t) := by
  have byteCount : (UInt8.ofNat data.length).toNat = data.length := Nat.mod_eq_of_lt small
  simp only [writeCells, Word.bytes, List.cons_append, List.nil_append, Word.ofBytes_high_low, byteCount]
  rw [if_neg (by simp [length])]
  by_cases mapped : t.Maps address.toNat count.toNat
  · rw [if_pos mapped, if_neg (fun none => (t.isNone_span? _ _).mp none mapped)]
  · rw [if_neg mapped, if_pos ((t.isNone_span? _ _).mpr mapped)]

def readAnswer {α : Type} (payload : List α → List UInt8) (function : UInt8) : Option (List α) → List UInt8
  | none => refusal function .illegalDataAddress
  | some values => function :: .ofNat (payload values).length :: payload values

theorem readTable_eq {α : Type} (t : Table α) (payload : List α → List UInt8) (function : UInt8)
    (address count : UInt16) :
    readTable t payload function (Word.bytes address ++ Word.bytes count) =
      readAnswer payload function (t.span? address.toNat count.toNat) := by
  simp only [readTable, Word.bytes, List.cons_append, List.nil_append, Word.ofBytes_high_low]
  cases t.span? address.toNat count.toNat <;> rfl

theorem process_read (d : Device) (bank : Bank) (address quantity : UInt16) :
    d.process (bank.code.toByte :: (Word.bytes address ++ Word.bytes quantity)) =
      (readAnswer bank.payload bank.code.toByte ((d.memory.table bank).span? address.toNat quantity.toNat),
        { d with seen := (bank.code.toByte :: (Word.bytes address ++ Word.bytes quantity)) :: d.seen }) := by
  cases bank with
  | coils => exact Prod.ext (readTable_eq d.coils Bits.pack _ address quantity) rfl
  | discreteInputs => exact Prod.ext (readTable_eq d.discrete Bits.pack _ address quantity) rfl
  | holdingRegisters => exact Prod.ext (readTable_eq d.holding _ _ address quantity) rfl
  | inputRegisters => exact Prod.ext (readTable_eq d.input _ _ address quantity) rfl

end Device

/-- A write: new values for cells in a row. -/
inductive Assignment where
  | coil (address : UInt16) (value : Bool)
  | register (address value : UInt16)
  | coils (address : UInt16) (values : List Bool)
  | registers (address : UInt16) (values : List UInt16)
  deriving DecidableEq, Repr

namespace Assignment

def code : Assignment → FunctionCode
  | coil .. => .writeSingleCoil
  | register .. => .writeSingleRegister
  | coils .. => .writeMultipleCoils
  | registers .. => .writeMultipleRegisters

def request (slave : UInt8) (s : Assignment) : Request :=
  match s with
  | coil address value => ⟨slave, s.code.toByte, address, 1, Word.bytes (Protocol.coilWord value)⟩
  | register address value => ⟨slave, s.code.toByte, address, 1, Word.bytes value⟩
  | coils address values => ⟨slave, s.code.toByte, address, .ofNat values.length, Bits.pack values⟩
  | registers address values => ⟨slave, s.code.toByte, address, .ofNat values.length, values.flatMap Word.bytes⟩

/-- One request can carry the values. -/
def Admissible : Assignment → Prop
  | coil .. | register .. => True
  | coils _ values => 0 < values.length ∧ values.length ≤ Protocol.maxWriteCoils.toNat
  | registers _ values => 0 < values.length ∧ values.length ≤ Protocol.maxWriteRegisters.toNat

def Mapped (m : Memory) : Assignment → Prop
  | coil address _ => m.coils.Maps address.toNat 1
  | register address _ => m.holding.Maps address.toNat 1
  | coils address values => m.coils.Maps address.toNat values.length
  | registers address values => m.holding.Maps address.toNat values.length

instance (m : Memory) : (s : Assignment) → Decidable (s.Mapped m)
  | coil .. | register .. | coils .. | registers .. => inferInstanceAs (Decidable (Device.Table.Maps _ _ _))

def apply (m : Memory) : Assignment → Memory
  | coil address value => { m with coils := m.coils.store address [value] }
  | register address value => { m with holding := m.holding.store address [value] }
  | coils address values => { m with coils := m.coils.store address values }
  | registers address values => { m with holding := m.holding.store address values }

end Assignment

/-- The answer to a write that was done: its address and value or quantity. -/
def Request.echo (r : Request) : List UInt8 := r.function :: (Word.bytes r.address ++ Word.bytes r.echoedWord)

namespace Device

theorem coilValue?_coilWord (value : Bool) : coilValue? (Protocol.coilWord value) = some value := by
  cases value <;> rfl

theorem map_ite {α β : Type} (f : α → β) {c : Prop} [Decidable c] {p x y : α} (h : p = if c then x else y) :
    f p = if c then f x else f y := by rw [h, apply_ite f]

/-- A write is done as a whole if all its cells are mapped, and refused as a whole otherwise. -/
theorem process_assignment (d : Device) (slave : UInt8) (s : Assignment) (admissible : s.Admissible) :
    ((d.process (s.request slave).wire).1, (d.process (s.request slave).wire).2.memory) =
      if s.Mapped d.memory then ((s.request slave).echo, s.apply d.memory)
      else (refusal s.code.toByte .illegalDataAddress, d.memory) := by
  cases s with
  | coil address value =>
    have cell := writeCell_eq d.coils coilValue? 0x05 address _ value (coilValue?_coilWord value)
    have word : ((Assignment.coil address value).request slave).echoedWord = Protocol.coilWord value :=
      Word.ofBytes_high_low _
    rw [Request.echo, word]
    exact map_ite (fun done => (done.1, { d.memory with coils := done.2 })) cell
  | register address value =>
    have cell := writeCell_eq d.holding some 0x06 address value value rfl
    have word : ((Assignment.register address value).request slave).echoedWord = value := Word.ofBytes_high_low _
    rw [Request.echo, word]
    exact map_ite (fun done => (done.1, { d.memory with holding := done.2 })) cell
  | coils address values =>
    have most : values.length ≤ 1968 := admissible.2
    have count : (UInt16.ofNat values.length).toNat = values.length := Word.toNat_ofNat (by omega)
    have cells := writeCells_eq d.coils Bits.byteCount Bits.unpack 0x0F address (.ofNat values.length)
      (Bits.pack values) (by rw [Bits.length_pack, count]) (by rw [Bits.length_pack, Bits.byteCount]; omega)
    rw [count, Bits.take_unpack_pack] at cells
    exact map_ite (fun done => (done.1, { d.memory with coils := done.2 })) cells
  | registers address values =>
    have most : values.length ≤ 123 := admissible.2
    have count : (UInt16.ofNat values.length).toNat = values.length := Word.toNat_ofNat (by omega)
    have cells := writeCells_eq d.holding (2 * ·) Word.ofPairs 0x10 address (.ofNat values.length)
      (values.flatMap Word.bytes) (by rw [Word.length_flatMap_bytes, count])
      (by rw [Word.length_flatMap_bytes]; omega)
    rw [count, Word.ofPairs_flatMap_bytes, List.take_length] at cells
    exact map_ite (fun done => (done.1, { d.memory with holding := done.2 })) cells

end Device

end Modbus
