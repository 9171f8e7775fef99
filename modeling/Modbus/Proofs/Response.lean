import Modbus.Proofs.Memory

/-! What the answers of a device say: a refusal is read as the exception it is, the answer to a read as the
values of the cells, and the echo of a write as its confirmation. -/
namespace Modbus

namespace FunctionCode

theorem isException_toByte (f : FunctionCode) : isException f.toByte = false := by cases f <;> rfl

theorem refusal_toByte (f : FunctionCode) :
    isException (f.toByte ||| 0x80) = true ∧ withoutException (f.toByte ||| 0x80) = f.toByte := by
  cases f <;> decide

end FunctionCode

namespace Response

variable {p : Pdu}

theorem check_eq_ok {function : UInt8} {rest : List UInt8} (bytes : p.bytes = function :: rest)
    (plain : FunctionCode.isException function = false) : check p function = .ok () := by
  simp [check, Pdu.functionCode?, bytes, plain]

theorem check_refusal {f : FunctionCode} {code : ExceptionCode} (bytes : p.bytes = Device.refusal f.toByte code) :
    check p f.toByte = .error (.exception f.toByte code.toByte) := by
  obtain ⟨high, plain⟩ := f.refusal_toByte
  simp [check, Pdu.exceptionCode?, Pdu.isException, Pdu.functionCode?, bytes, Device.refusal, high, plain]

theorem bits_eq_ok {function : UInt8} {quantity : UInt16} {values : List Bool}
    (plain : FunctionCode.isException function = false) (size : values.length = quantity.toNat)
    (most : values.length ≤ 2000) (bytes : p.bytes = function :: .ofNat (Bits.pack values).length :: Bits.pack values) :
    bits p function quantity = .ok values := by
  have count : (UInt8.ofNat (Bits.pack values).length).toNat = Bits.byteCount quantity.toNat := by
    rw [Bits.length_pack, UInt8.toNat_ofNat', ← size, Bits.byteCount]
    omega
  rw [bits, check_eq_ok bytes plain, bytes]
  simp only [bind, Except.bind]
  rw [count, Bits.length_pack, size, if_neg (by omega), ← size, Bits.take_unpack_pack]

theorem registers_eq_ok {function : UInt8} {quantity : UInt16} {values : List UInt16}
    (plain : FunctionCode.isException function = false) (size : values.length = quantity.toNat)
    (most : values.length ≤ 125)
    (bytes : p.bytes = function :: .ofNat (values.flatMap Word.bytes).length :: values.flatMap Word.bytes) :
    registers p function quantity = .ok values := by
  have count : (UInt8.ofNat (values.flatMap Word.bytes).length).toNat = 2 * quantity.toNat := by
    rw [Word.length_flatMap_bytes, UInt8.toNat_ofNat', ← size]
    omega
  rw [registers, check_eq_ok bytes plain, bytes]
  simp only [bind, Except.bind]
  rw [count, Word.length_flatMap_bytes, size, if_neg (by omega), ← size, ← Word.length_flatMap_bytes,
    List.take_length, Word.ofPairs_flatMap_bytes]

theorem checkEcho_echo {r : Request} (plain : FunctionCode.isException r.function = false)
    (bytes : p.bytes = r.echo) : checkEcho p r.function r.address r.echoedWord = .ok () := by
  rw [checkEcho, check_eq_ok bytes plain, bytes]
  simp [bind, Except.bind, Request.echo, Word.bytes]

theorem checkEcho_refusal {f : FunctionCode} {code : ExceptionCode} {address word : UInt16}
    (bytes : p.bytes = Device.refusal f.toByte code) :
    checkEcho p f.toByte address word = .error (.exception f.toByte code.toByte) := by
  rw [checkEcho, check_refusal bytes]
  rfl

end Response

namespace Bank

def outcome (bank : Bank) : Option (List bank.Cell) → Except Error (List bank.Cell)
  | none => .error (.exception bank.code.toByte ExceptionCode.illegalDataAddress.toByte)
  | some values => .ok values

theorem parse_readAnswer (bank : Bank) {values? : Option (List bank.Cell)} {quantity : UInt16} {p : Pdu}
    (most : quantity ≤ bank.maxQuantity) (size : ∀ values ∈ values?, values.length = quantity.toNat)
    (bytes : p.bytes = Device.readAnswer bank.payload bank.code.toByte values?) :
    bank.parse p bank.code.toByte quantity = bank.outcome values? := by
  have plain := bank.code.isException_toByte
  cases values? with
  | none =>
    have refused := Response.check_refusal bytes
    cases bank <;> (simp only [parse, Response.bits, Response.registers, refused]; rfl)
  | some values =>
    have length := size values rfl
    have bound := UInt16.le_iff_toNat_le.mp most
    cases bank with
    | coils => exact Response.bits_eq_ok plain length (length ▸ bound) bytes
    | discreteInputs => exact Response.bits_eq_ok plain length (length ▸ bound) bytes
    | holdingRegisters => exact Response.registers_eq_ok plain length (length ▸ bound) bytes
    | inputRegisters => exact Response.registers_eq_ok plain length (length ▸ bound) bytes

theorem length_payload_le (bank : Bank) {values : List bank.Cell} (most : values.length ≤ bank.maxQuantity.toNat) :
    (bank.payload values).length ≤ 250 := by
  cases bank with
  | coils | discreteInputs =>
    have most : values.length ≤ 2000 := most
    rw [payload, Bits.length_pack, Bits.byteCount]
    omega
  | holdingRegisters | inputRegisters =>
    have most : values.length ≤ 125 := most
    rw [payload, Word.length_flatMap_bytes]
    omega

theorem length_readAnswer_le (bank : Bank) {values? : Option (List bank.Cell)} {quantity : UInt16}
    (most : quantity ≤ bank.maxQuantity) (size : ∀ values ∈ values?, values.length = quantity.toNat) :
    (Device.readAnswer bank.payload bank.code.toByte values?).length ≤ Protocol.maxPduSize := by
  cases values? with
  | none => exact Nat.le_of_ble_eq_true rfl
  | some values =>
    have short := bank.length_payload_le (Nat.le_trans (Nat.le_of_eq (size values rfl)) (UInt16.le_iff_toNat_le.mp most))
    simp only [Device.readAnswer, List.length_cons, Protocol.maxPduSize]
    omega

end Bank

end Modbus
