import Modbus.Proofs.Response

/-! The form of everything that a device answers to a request that can be sent: a refusal, the bytes of cells
behind their count, or the echo of a write. -/
namespace Modbus.Device

inductive Answer (f : FunctionCode) : List UInt8 → Prop where
  | refusal (code : ExceptionCode) : Answer f (refusal f.toByte code)
  | cells {payload : List UInt8} (read : FunctionCode.isRead f.toByte = true) (short : payload.length ≤ 250) :
      Answer f (f.toByte :: .ofNat payload.length :: payload)
  | echo {body : List UInt8} (write : FunctionCode.isWrite f.toByte = true) (size : body.length = 4) :
      Answer f (f.toByte :: body)

namespace Answer

variable {f : FunctionCode} {bytes : List UInt8}

theorem length_le (answer : Answer f bytes) : bytes.length ≤ Protocol.maxPduSize := by
  cases answer with
  | refusal code => exact Nat.le_of_ble_eq_true rfl
  | cells read short => simp only [List.length_cons, Protocol.maxPduSize]; omega
  | echo write size => simp only [List.length_cons, Protocol.maxPduSize]; omega

theorem two_le (answer : Answer f bytes) : 2 ≤ bytes.length := by
  cases answer with
  | refusal code => exact Nat.le_refl 2
  | cells read short => simp only [List.length_cons]; omega
  | echo write size => simp only [List.length_cons]; omega

end Answer

theorem answer_writeCell {α : Type} (t : Table α) (value? : UInt16 → Option α) {f : FunctionCode}
    (write : FunctionCode.isWrite f.toByte = true) (body : List UInt8) :
    Answer f (writeCell t value? f.toByte body).1 := by
  unfold writeCell
  split
  · dsimp only
    split
    · exact .refusal .illegalDataAddress
    · split
      · exact .refusal .illegalDataValue
      · exact .echo write rfl
  · exact .refusal .illegalDataValue

theorem answer_writeCells {α : Type} (t : Table α) (size : Nat → Nat) (values : List UInt8 → List α)
    {f : FunctionCode} (write : FunctionCode.isWrite f.toByte = true) (body : List UInt8) :
    Answer f (writeCells t size values f.toByte body).1 := by
  unfold writeCells
  split
  · dsimp only
    split
    · exact .refusal .illegalDataValue
    · split
      · exact .refusal .illegalDataAddress
      · exact .echo write rfl
  · exact .refusal .illegalDataValue

theorem answer_read (d : Device) (bank : Bank) (address : UInt16) {quantity : UInt16}
    (most : quantity ≤ bank.maxQuantity) :
    Answer bank.code (d.process (bank.code.toByte :: (Word.bytes address ++ Word.bytes quantity))).1 := by
  rw [process_read]
  cases found : (d.memory.table bank).span? address.toNat quantity.toNat with
  | none => exact .refusal .illegalDataAddress
  | some values =>
    have size : values.length ≤ bank.maxQuantity.toNat :=
      Nat.le_trans (Nat.le_of_eq (Table.length_of_span? found)) (UInt16.le_iff_toNat_le.mp most)
    refine .cells ?_ (bank.length_payload_le size)
    cases bank with
    | coils | discreteInputs | holdingRegisters | inputRegisters => rfl

/-- Every request that becomes a message is answered in this form. -/
theorem answer_process (d : Device) {r : Request} (acceptable : r.Acceptable) :
    ∃ f, Answer f (d.process r.wire).1 := by
  obtain ⟨slave, function, address, quantity, data⟩ := r
  unfold Request.Acceptable at acceptable
  cases code : FunctionCode.ofByte? function with
  | none => rw [code] at acceptable; exact acceptable.elim
  | some f =>
    obtain rfl := FunctionCode.ofByte?_eq_some_iff.mp code
    rw [code] at acceptable
    refine ⟨f, ?_⟩
    cases f with
    | readCoils => exact d.answer_read .coils address acceptable.2
    | readDiscreteInputs => exact d.answer_read .discreteInputs address acceptable.2
    | readHoldingRegisters => exact d.answer_read .holdingRegisters address acceptable.2
    | readInputRegisters => exact d.answer_read .inputRegisters address acceptable.2
    | writeSingleCoil => exact answer_writeCell d.coils coilValue? rfl _
    | writeSingleRegister => exact answer_writeCell d.holding some rfl _
    | writeMultipleCoils =>
      exact answer_writeCells (f := .writeMultipleCoils) d.coils Bits.byteCount Bits.unpack rfl
        (Word.bytes address ++ (Word.bytes quantity ++ .ofNat data.length :: data))
    | writeMultipleRegisters =>
      exact answer_writeCells (f := .writeMultipleRegisters) d.holding (2 * ·) Word.ofPairs rfl
        (Word.bytes address ++ (Word.bytes quantity ++ .ofNat data.length :: data))
    | readWriteMultipleRegisters => exact acceptable.elim

end Modbus.Device
