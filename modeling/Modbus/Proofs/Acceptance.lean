import Modbus.Proofs.Verdict

/-! Which responses a read accepts, and which of their bytes make up its values. The announced byte count, the bytes
that are there and the quantity can disagree in every way, so acceptance is exact and each value is traced to its place
in the response. -/
namespace Modbus

namespace Bank

/-- Data of `available` bytes, announced as `count`, is enough for `quantity` values. Bits may be announced and sent with
more bytes than they need; registers must be announced exactly. -/
def Suffices (quantity : Nat) (count : UInt8) (available : Nat) : Bank → Prop
  | coils | discreteInputs => (quantity + 7) / 8 ≤ count.toNat ∧ count.toNat ≤ available
  | holdingRegisters | inputRegisters => count.toNat = 2 * quantity ∧ 2 * quantity ≤ available

instance (quantity : Nat) (count : UInt8) (available : Nat) :
    (bank : Bank) → Decidable (bank.Suffices quantity count available)
  | coils | discreteInputs | holdingRegisters | inputRegisters => inferInstanceAs (Decidable (_ ∧ _))

/-- The error of a read whose response is not enough. -/
def shortage (quantity : Nat) : Bank → Error
  | coils | discreteInputs => .shortBitResponse (Bits.byteCount quantity)
  | holdingRegisters | inputRegisters => .registerByteCount (2 * quantity)

/-- The first values of some data. -/
def cells (data : List UInt8) (quantity : Nat) : (bank : Bank) → List bank.Cell
  | coils | discreteInputs => (Bits.unpack data).take quantity
  | holdingRegisters | inputRegisters => Word.ofPairs (data.take (2 * quantity))

/-- The value at an index, given how a byte of the data is looked up: one bit, the first in the least significant place
of the first byte, or one word, high byte first. -/
def cellAt? (byte? : Nat → Option UInt8) (i : Nat) : (bank : Bank) → Option bank.Cell
  | coils | discreteInputs => (byte? (i / 8)).map fun byte => byte.toNat.testBit (i % 8)
  | holdingRegisters | inputRegisters => do return Word.ofBytes (← byte? (2 * i)) (← byte? (2 * i + 1))

theorem parse_eq (bank : Bank) (p : Pdu) (function : UInt8) (quantity : UInt16) :
    bank.parse p function quantity = Response.check p function >>= fun _ =>
      match p.bytes with
      | _ :: count :: data =>
        if bank.Suffices quantity.toNat count data.length then .ok (bank.cells data quantity.toNat)
        else .error (bank.shortage quantity.toNat)
      | _ => .error (bank.shortage quantity.toNat) := by
  cases bank with
  | coils | discreteInputs =>
    refine congrArg (Response.check p function >>= ·) (funext fun _ => ?_)
    rcases p.bytes with _ | ⟨_, _ | ⟨count, data⟩⟩
    · rfl
    · rfl
    · have short : count.toNat < Bits.byteCount quantity.toNat ∨ data.length < count.toNat ↔
          ¬ Suffices quantity.toNat count data.length .coils := by
        simp only [Suffices, Bits.byteCount]
        omega
      exact (ite_congr (propext short) (fun _ => rfl) fun _ => rfl).trans (ite_not ..)
  | holdingRegisters | inputRegisters =>
    refine congrArg (Response.check p function >>= ·) (funext fun _ => ?_)
    rcases p.bytes with _ | ⟨_, _ | ⟨count, data⟩⟩
    · rfl
    · rfl
    · have short : count.toNat ≠ 2 * quantity.toNat ∨ data.length < 2 * quantity.toNat ↔
          ¬ Suffices quantity.toNat count data.length .holdingRegisters := by
        simp only [Suffices]
        omega
      exact (ite_congr (propext short) (fun _ => rfl) fun _ => rfl).trans (ite_not ..)

/-- Data that suffices has a value at every index, and these are the values taken from it. -/
theorem mapM_cellAt? {bank : Bank} {quantity : Nat} {count : UInt8} {data : List UInt8}
    (enough : bank.Suffices quantity count data.length) :
    (List.range quantity).mapM (bank.cellAt? (data[·]?)) = some (bank.cells data quantity) := by
  rw [mapM_range_eq_some_iff]
  cases bank with
  | coils | discreteInputs =>
    obtain ⟨needed, there⟩ := enough
    refine ⟨?_, ?_⟩
    · rw [cells, List.length_take, Bits.length_unpack]
      omega
    · intro i hi
      rw [cells, List.getElem?_take_of_lt hi, Bits.getElem?_unpack]
      rfl
  | holdingRegisters | inputRegisters =>
    obtain ⟨-, there⟩ := enough
    refine ⟨?_, ?_⟩
    · rw [cells, Word.length_ofPairs, List.length_take]
      omega
    · intro i hi
      rw [cells, Word.getElem?_ofPairs, List.getElem?_take_of_lt (by omega), List.getElem?_take_of_lt (by omega)]
      rfl

/-- A response is accepted exactly if it has the function code of the request, a byte count and data that suffices. -/
theorem parse_eq_ok_iff_cells (bank : Bank) {p : Pdu} {function : UInt8} {quantity : UInt16} {values : List bank.Cell} :
    bank.parse p function quantity = .ok values ↔ FunctionCode.isException function = false ∧
      ∃ count data, p.bytes = function :: count :: data ∧ bank.Suffices quantity.toNat count data.length ∧
        bank.cells data quantity.toNat = values := by
  rw [parse_eq, Response.check_bind_eq_ok_iff]
  refine and_congr_right fun _ => ?_
  constructor
  · rintro ⟨⟨body, bytes⟩, accepted⟩
    rw [bytes] at accepted ⊢
    rcases body with _ | ⟨count, data⟩
    · nomatch accepted
    · dsimp only at accepted
      split at accepted
      case isTrue enough => exact ⟨count, data, rfl, enough, Except.ok.inj accepted⟩
      case isFalse => nomatch accepted
  · rintro ⟨count, data, bytes, enough, taken⟩
    refine ⟨⟨_, bytes⟩, ?_⟩
    rw [bytes]
    exact (if_pos enough).trans (congrArg Except.ok taken)

/-- The values of a response that is accepted are those of the data, index by index. -/
theorem parse_eq_ok_iff (bank : Bank) {p : Pdu} {function : UInt8} {quantity : UInt16} {values : List bank.Cell} :
    bank.parse p function quantity = .ok values ↔ FunctionCode.isException function = false ∧
      ∃ count data, p.bytes = function :: count :: data ∧ bank.Suffices quantity.toNat count data.length ∧
        values.length = quantity.toNat ∧ ∀ i < quantity.toNat, values[i]? = bank.cellAt? (data[·]?) i := by
  rw [parse_eq_ok_iff_cells]
  refine and_congr_right fun _ => exists_congr fun count => exists_congr fun data => ?_
  refine and_congr_right fun _ => and_congr_right fun enough => ?_
  rw [← mapM_range_eq_some_iff, mapM_cellAt? enough, Option.some_inj]

/-- More bits than needed, and the unused ones not zero. -/
example : coils.parse ⟨[0x01, 2, 0b11111101, 0xFF], by decide⟩ 0x01 3 = .ok [true, false, true] := rfl

/-- A response read by index only, as far as every byte that is asked for is there. -/
def indexed? (bank : Bank) (p : Pdu) (function : UInt8) (quantity : UInt16) :
    Option (Except Error (List bank.Cell)) :=
  match Response.check p function with
  | .error e => some (.error e)
  | .ok () =>
    if p.bytes.length < 2 then some (.error (bank.shortage quantity.toNat))
    else do
      let count ← p.bytes[1]?
      if bank.Suffices quantity.toNat count (p.bytes.length - 2) then
        let values ← (List.range quantity.toNat).mapM (bank.cellAt? fun j => p.bytes[2 + j]?)
        return .ok values
      else return .error (bank.shortage quantity.toNat)

/-- No byte is asked for that is not there. -/
theorem indexed?_eq (bank : Bank) (p : Pdu) (function : UInt8) (quantity : UInt16) :
    bank.indexed? p function quantity = some (bank.parse p function quantity) := by
  rw [parse_eq, indexed?]
  cases Response.check p function with
  | error e => rfl
  | ok _ =>
    rcases p.bytes with _ | ⟨first, _ | ⟨count, data⟩⟩
    · rfl
    · rfl
    · have shifted : (fun j => (first :: count :: data)[2 + j]?) = (data[·]?) := by
        funext j
        rw [Nat.add_comm, List.getElem?_cons_succ, List.getElem?_cons_succ]
      dsimp only
      rw [shifted, if_neg (by simp)]
      change (if bank.Suffices _ count data.length then _ else _) = _
      by_cases enough : bank.Suffices quantity.toNat count data.length
      · rw [if_pos enough, mapM_cellAt? enough]
        exact (congrArg some (if_pos enough)).symm
      · rw [if_neg enough]
        exact (congrArg some (if_neg enough)).symm

end Bank

end Modbus
