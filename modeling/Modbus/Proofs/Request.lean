import Modbus.Proofs.Assembly
import Modbus.Request

/-! Which requests have a message, and what their messages are: a request is acceptable if quantity and
payload are what its function code asks for, and no acceptable request is too long. -/
namespace Modbus

namespace Error

variable {α : Type}

/-- The error that an outcome ends with. -/
def raised? : Except Error α → Option Error
  | .error e => some e
  | .ok _ => none

theorem eq_error_of_raised {outcome : Except Error α} {e : Error} (raised : raised? outcome = some e) :
    outcome = .error e := by
  cases outcome with
  | error other => exact congrArg Except.error (Option.some.inj raised)
  | ok x => nomatch raised

theorem exists_ok_of_not_raised {outcome : Except Error α} (none : raised? outcome = none) : ∃ x, outcome = .ok x := by
  cases outcome with
  | error e => nomatch none
  | ok x => exact ⟨x, rfl⟩

theorem eq_ok_of_not_raised {outcome : Except Error Unit} (none : raised? outcome = none) : outcome = .ok () := by
  obtain ⟨_, ok⟩ := exists_ok_of_not_raised none
  exact ok

end Error

namespace Request

def Acceptable (r : Request) : Prop :=
  match FunctionCode.ofByte? r.function with
  | some .readCoils | some .readDiscreteInputs | some .readHoldingRegisters | some .readInputRegisters =>
    r.quantity ≠ 0 ∧ r.quantity ≤ FunctionCode.maxReadQuantity r.function
  | some .writeSingleCoil | some .writeSingleRegister => r.data.length = 2
  | some .writeMultipleCoils =>
    (r.quantity ≠ 0 ∧ r.quantity ≤ Protocol.maxWriteCoils) ∧ r.data.length = Bits.byteCount r.quantity.toNat
  | some .writeMultipleRegisters =>
    (r.quantity ≠ 0 ∧ r.quantity ≤ Protocol.maxWriteRegisters) ∧ r.data.length = 2 * r.quantity.toNat
  | some .readWriteMultipleRegisters | none => False

/-- The message of an acceptable request. -/
def wire (r : Request) : List UInt8 :=
  r.function :: Word.bytes r.address ++
    match FunctionCode.ofByte? r.function with
    | some .writeSingleCoil | some .writeSingleRegister => r.data
    | some .writeMultipleCoils | some .writeMultipleRegisters =>
      Word.bytes r.quantity ++ .ofNat r.data.length :: r.data
    | _ => Word.bytes r.quantity

variable {r : Request}

/-- A write whose message has no quantity. -/
def SingleWrite (r : Request) : Prop :=
  r.function = FunctionCode.writeSingleCoil.toByte ∨ r.function = FunctionCode.writeSingleRegister.toByte

def MultipleWrite (r : Request) : Prop :=
  r.function = FunctionCode.writeMultipleCoils.toByte ∨ r.function = FunctionCode.writeMultipleRegisters.toByte

/-- What the message says behind the address. -/
def body (r : Request) : List UInt8 := r.wire.drop 3

theorem wire_eq (r : Request) : r.wire = r.function :: (Word.bytes r.address ++ r.body) := rfl

theorem body_of_read (read : FunctionCode.isRead r.function = true) : r.body = Word.bytes r.quantity := by
  unfold FunctionCode.isRead at read
  unfold body wire
  split at read
  case h_5 => nomatch read
  all_goals simp [*, Word.bytes]

theorem body_of_single (single : r.SingleWrite) : r.body = r.data := by
  unfold body wire
  rcases single with code | code <;> rw [code] <;> rfl

theorem body_of_multiple (multiple : r.MultipleWrite) :
    r.body = Word.bytes r.quantity ++ .ofNat r.data.length :: r.data := by
  unfold body wire
  rcases multiple with code | code <;> rw [code] <;> rfl

/-- Requests that have a message are of three kinds, and no payload is too large for a message. -/
theorem Acceptable.cases (acceptable : r.Acceptable) :
    FunctionCode.isRead r.function = true ∨ (r.SingleWrite ∧ r.data.length = 2) ∨
      (r.MultipleWrite ∧ r.data.length ≤ 246) := by
  have isRead := FunctionCode.isRead.eq_1 r.function
  unfold Acceptable at acceptable
  cases code : FunctionCode.ofByte? r.function with
  | none => rw [code] at acceptable; exact acceptable.elim
  | some f =>
    have byte := FunctionCode.ofByte?_eq_some_iff.mp code
    rw [code] at acceptable isRead
    cases f with
    | readCoils | readDiscreteInputs | readHoldingRegisters | readInputRegisters => exact .inl isRead
    | writeSingleCoil => exact .inr (.inl ⟨.inl byte, acceptable⟩)
    | writeSingleRegister => exact .inr (.inl ⟨.inr byte, acceptable⟩)
    | writeMultipleCoils =>
      have size : r.data.length = Bits.byteCount r.quantity.toNat := acceptable.2
      have most : r.quantity.toNat ≤ 1968 := UInt16.le_iff_toNat_le.mp acceptable.1.2
      refine .inr (.inr ⟨.inl byte, ?_⟩)
      rw [size, Bits.byteCount]
      omega
    | writeMultipleRegisters =>
      have size : r.data.length = 2 * r.quantity.toNat := acceptable.2
      have most : r.quantity.toNat ≤ 123 := UInt16.le_iff_toNat_le.mp acceptable.1.2
      exact .inr (.inr ⟨.inr byte, by omega⟩)
    | readWriteMultipleRegisters => exact acceptable.elim

theorem guard_eq_ok_iff {α : Type} {c : Prop} [Decidable c] {e : Error} {x : Except Error α} {a : α} :
    (if c then .error e else x) = .ok a ↔ ¬ c ∧ x = .ok a := by
  split
  case isTrue bad => exact ⟨nofun, fun h => absurd bad h.1⟩
  case isFalse good => exact ⟨fun h => ⟨good, h⟩, fun h => h.2⟩

theorem not_outside_iff {quantity maximum : UInt16} :
    ¬ (quantity = 0 ∨ maximum < quantity) ↔ quantity ≠ 0 ∧ quantity ≤ maximum := by
  rw [not_or, UInt16.not_lt]

theorem outside_of_not_inside {quantity maximum : UInt16} (outside : ¬ (quantity ≠ 0 ∧ quantity ≤ maximum)) :
    quantity = 0 ∨ maximum < quantity :=
  Decidable.not_not.mp fun inside => outside (not_outside_iff.mp inside)

theorem multipleWrite_eq_ok_iff {r : Request} {maximum : UInt16} {expected : Nat} {p : Pdu} :
    r.multipleWrite maximum expected = .ok p ↔
      ((r.quantity ≠ 0 ∧ r.quantity ≤ maximum) ∧ r.data.length = expected) ∧
        p.bytes = r.function :: Word.bytes r.address ++ (Word.bytes r.quantity ++ .ofNat r.data.length :: r.data) := by
  rw [multipleWrite, guard_eq_ok_iff, not_outside_iff, guard_eq_ok_iff, Decidable.not_not,
    Pdu.assemble_eq_ok_iff]
  refine and_assoc.symm.trans (and_congr_right fun ⟨_, size⟩ => ?_)
  subst size
  simp [Pdu.Part.bytes]

theorem readRequest_eq_ok_iff {function : UInt8} {address quantity : UInt16} {p : Pdu}
    (isRead : FunctionCode.isRead function = true) :
    Pdu.readRequest function address quantity = .ok p ↔
      (quantity ≠ 0 ∧ quantity ≤ FunctionCode.maxReadQuantity function) ∧
        p.bytes = function :: Word.bytes address ++ Word.bytes quantity := by
  rw [Pdu.readRequest, isRead, guard_eq_ok_iff, guard_eq_ok_iff, not_outside_iff, Pdu.assemble_eq_ok_iff]
  simp [Pdu.Part.bytes]

theorem singleWrite_eq_ok_iff {r : Request} {p : Pdu} :
    (if r.data.length ≠ 2 then .error (.requestPayload r.function 2 r.data.length)
      else Pdu.assemble [.functionCode r.function, .address r.address, .data r.data]) = Except.ok p ↔
      r.data.length = 2 ∧ p.bytes = r.function :: Word.bytes r.address ++ r.data := by
  rw [guard_eq_ok_iff, Decidable.not_not, Pdu.assemble_eq_ok_iff]
  simp [Pdu.Part.bytes]

/-- Exactly the acceptable requests have a message. -/
theorem toPdu_eq_ok_iff {r : Request} {p : Pdu} : r.toPdu = .ok p ↔ r.Acceptable ∧ p.bytes = r.wire := by
  cases code : FunctionCode.ofByte? r.function with
  | none => simp [toPdu, Acceptable, code]
  | some f =>
    have isRead := FunctionCode.isRead.eq_1 r.function
    rw [code] at isRead
    unfold toPdu Acceptable wire
    rw [code]
    cases f with
    | readCoils => exact readRequest_eq_ok_iff isRead
    | readDiscreteInputs => exact readRequest_eq_ok_iff isRead
    | readHoldingRegisters => exact readRequest_eq_ok_iff isRead
    | readInputRegisters => exact readRequest_eq_ok_iff isRead
    | writeSingleCoil => exact singleWrite_eq_ok_iff
    | writeSingleRegister => exact singleWrite_eq_ok_iff
    | writeMultipleCoils => exact multipleWrite_eq_ok_iff
    | writeMultipleRegisters => exact multipleWrite_eq_ok_iff
    | readWriteMultipleRegisters => exact ⟨nofun, fun h => h.1.elim⟩

theorem length_wire_le {r : Request} (acceptable : r.Acceptable) : r.wire.length ≤ Protocol.maxPduSize := by
  have length_body : r.body.length ≤ 249 := by
    rcases acceptable.cases with read | ⟨single, two⟩ | ⟨multiple, most⟩
    · rw [body_of_read read]
      exact Nat.le_of_ble_eq_true rfl
    · rw [body_of_single single, two]
      exact Nat.le_of_ble_eq_true rfl
    · rw [body_of_multiple multiple, List.length_append, List.length_cons, Word.length_bytes]
      omega
  rw [wire_eq, List.length_cons, List.length_append, Word.length_bytes, Protocol.maxPduSize]
  omega

theorem exists_toPdu {r : Request} (acceptable : r.Acceptable) :
    ∃ pdu, r.toPdu = .ok pdu ∧ pdu.bytes = r.wire :=
  ⟨⟨r.wire, length_wire_le acceptable⟩, toPdu_eq_ok_iff.mpr ⟨acceptable, rfl⟩, rfl⟩

theorem kind_of_readRequest {function : UInt8} {address quantity : UInt16} {e : Error}
    (isRead : FunctionCode.isRead function = true)
    (outside : ¬ (quantity ≠ 0 ∧ quantity ≤ FunctionCode.maxReadQuantity function))
    (refused : Pdu.readRequest function address quantity = .error e) : e.kind = .invalidData := by
  rw [Pdu.readRequest, isRead, if_neg nofun, if_pos (outside_of_not_inside outside)] at refused
  cases refused
  rfl

theorem kind_of_singleWrite {r : Request} {e : Error} {x : Except Error Pdu} (size : ¬ r.data.length = 2)
    (refused : (if r.data.length ≠ 2 then .error (.requestPayload r.function 2 r.data.length) else x) = .error e) :
    e.kind = .invalidData := by
  rw [if_pos size] at refused
  cases refused
  rfl

theorem kind_of_multipleWrite {r : Request} {maximum : UInt16} {expected : Nat} {e : Error}
    (unfit : ¬ ((r.quantity ≠ 0 ∧ r.quantity ≤ maximum) ∧ r.data.length = expected))
    (refused : r.multipleWrite maximum expected = .error e) : e.kind = .invalidData := by
  by_cases inside : r.quantity ≠ 0 ∧ r.quantity ≤ maximum
  · rw [multipleWrite, if_neg (not_outside_iff.mpr inside), if_pos (fun size => unfit ⟨inside, size⟩)] at refused
    cases refused
    rfl
  · rw [multipleWrite, if_pos (outside_of_not_inside inside)] at refused
    cases refused
    rfl

/-- A request that has no message is at fault itself: its function code, its quantity or its payload. -/
theorem kind_of_toPdu {r : Request} {e : Error} (refused : r.toPdu = .error e) :
    e.kind = .invalidFunction ∨ e.kind = .invalidData := by
  have unacceptable : ¬ r.Acceptable := by
    intro acceptable
    obtain ⟨m, accepted, _⟩ := exists_toPdu acceptable
    rw [accepted] at refused
    nomatch refused
  have isRead := FunctionCode.isRead.eq_1 r.function
  unfold toPdu at refused
  unfold Acceptable at unacceptable
  cases code : FunctionCode.ofByte? r.function with
  | none =>
    rw [code] at refused
    cases refused
    exact .inl rfl
  | some f =>
    rw [code] at refused unacceptable isRead
    cases f with
    | readCoils => exact .inr (kind_of_readRequest isRead unacceptable refused)
    | readDiscreteInputs => exact .inr (kind_of_readRequest isRead unacceptable refused)
    | readHoldingRegisters => exact .inr (kind_of_readRequest isRead unacceptable refused)
    | readInputRegisters => exact .inr (kind_of_readRequest isRead unacceptable refused)
    | writeSingleCoil => exact .inr (kind_of_singleWrite unacceptable refused)
    | writeSingleRegister => exact .inr (kind_of_singleWrite unacceptable refused)
    | writeMultipleCoils => exact .inr (kind_of_multipleWrite unacceptable refused)
    | writeMultipleRegisters => exact .inr (kind_of_multipleWrite unacceptable refused)
    | readWriteMultipleRegisters =>
      cases refused
      exact .inl rfl

end Request

end Modbus
