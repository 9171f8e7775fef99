import Modbus.Proofs.Transparency

/-! The plain reads and writes of a client without a medium are those of a memory with four tables: what each of
them answers, sends and changes is said cell by cell, and a run of them is these steps one after another. -/
namespace Modbus

namespace Device.Table

variable {α : Type}

/-- The values stand in a row from `start` on, and every other cell is as it was. -/
def Written (t t' : Table α) (start : UInt16) (values : List α) : Prop :=
  ∀ address : UInt16, t'.get? address =
    if start.toNat ≤ address.toNat ∧ address.toNat < start.toNat + values.length then
      values[address.toNat - start.toNat]?
    else t.get? address

theorem written_store {t : Table α} {start : UInt16} {values : List α} (mapped : t.Maps start.toNat values.length)
    (some : 0 < values.length) : t.Written (t.store start values) start values := by
  intro address
  exact t.get?_store start values (mapped.inside some) address

end Device.Table

namespace Assignment

def bank : Assignment → Bank
  | coil .. | coils .. => .coils
  | register .. | registers .. => .holdingRegisters

def address : Assignment → UInt16
  | coil address _ | register address _ | coils address _ | registers address _ => address

def values : (s : Assignment) → List s.bank.Cell
  | coil _ value => [value]
  | register _ value => [value]
  | coils _ values => values
  | registers _ values => values

/-- How many cells a write of this kind may name. -/
def ceiling : Assignment → Nat
  | coil .. | register .. => 1
  | coils .. => 1968
  | registers .. => 123

theorem admissible_iff (s : Assignment) : s.Admissible ↔ 0 < s.values.length ∧ s.values.length ≤ s.ceiling := by
  cases s with
  | coil address value => exact iff_of_true trivial ⟨Nat.one_pos, Nat.le_refl 1⟩
  | register address value => exact iff_of_true trivial ⟨Nat.one_pos, Nat.le_refl 1⟩
  | coils address values => exact Iff.rfl
  | registers address values => exact Iff.rfl

theorem mapped_iff (s : Assignment) (m : Memory) :
    s.Mapped m ↔ (m.table s.bank).Maps s.address.toNat s.values.length := by
  cases s <;> exact Iff.rfl

theorem table_apply (s : Assignment) (m : Memory) :
    (s.apply m).table s.bank = (m.table s.bank).store s.address s.values := by
  cases s <;> rfl

theorem table_apply_of_ne (s : Assignment) (m : Memory) {bank : Bank} (other : bank ≠ s.bank) :
    (s.apply m).table bank = m.table bank := by
  cases s with
  | coil | coils =>
    cases bank with
    | coils => exact absurd rfl other
    | _ => rfl
  | register | registers =>
    cases bank with
    | holdingRegisters => exact absurd rfl other
    | _ => rfl

end Assignment

/-- A read or a write of cells in a row. -/
inductive Plain where
  | read (bank : Bank) (slave : UInt8) (address quantity : UInt16)
  | write (assignment : Assignment) (slave : UInt8)

namespace Plain

def operation : Plain → Operation
  | read bank slave address quantity => .read bank slave address quantity
  | write assignment slave => .write assignment slave

def code : Plain → FunctionCode
  | read bank .. => bank.code
  | write assignment _ => assignment.code

def bank : Plain → Bank
  | read bank .. => bank
  | write assignment _ => assignment.bank

def address : Plain → UInt16
  | read _ _ address _ => address
  | write assignment _ => assignment.address

def count : Plain → Nat
  | read _ _ _ quantity => quantity.toNat
  | write assignment _ => assignment.values.length

def ceiling : Plain → Nat
  | read .coils .. | read .discreteInputs .. => 2000
  | read .holdingRegisters .. | read .inputRegisters .. => 125
  | write assignment _ => assignment.ceiling

def request : Plain → Request
  | read bank slave address quantity => bank.request slave address quantity
  | write assignment slave => assignment.request slave

/-- One operation on a memory: its outcome, the requests it takes, and the memory after it. -/
inductive Obeys (m : Memory) : Plain → Except Error Report → List Request → Memory → Prop where
  | refused {p : Plain} {e : Error} (outside : p.count = 0 ∨ p.ceiling < p.count) (invalid : e.kind = .invalidData) :
      Obeys m p (.error e) [] m
  | missing {p : Plain} (inside : 0 < p.count ∧ p.count ≤ p.ceiling)
      (hole : ¬ (m.table p.bank).Maps p.address.toNat p.count) :
      Obeys m p (.error (.exception p.code.toByte 0x02)) [p.request] m
  | found {bank : Bank} {slave : UInt8} {address quantity : UInt16} {values : List bank.Cell}
      (inside : 0 < quantity.toNat ∧ quantity.toNat ≤ (read bank slave address quantity).ceiling)
      (length : values.length = quantity.toNat)
      (cells : ∀ i < quantity.toNat, values[i]? = (m.table bank).cell? (address.toNat + i)) :
      Obeys m (read bank slave address quantity) (.ok (.cells bank values)) [bank.request slave address quantity] m
  | stored {s : Assignment} {slave : UInt8} {m' : Memory}
      (inside : 0 < s.values.length ∧ s.values.length ≤ s.ceiling)
      (mapped : (m.table s.bank).Maps s.address.toNat s.values.length)
      (written : (m.table s.bank).Written (m'.table s.bank) s.address s.values)
      (others : ∀ bank ≠ s.bank, m'.table bank = m.table bank) :
      Obeys m (write s slave) (.ok .done) [s.request slave] m'

inductive Runs : Memory → List Plain → List (Except Error Report) → List Request → Memory → Prop where
  | nil {m : Memory} : Runs m [] [] [] m
  | cons {m m' m'' : Memory} {p : Plain} {rest : List Plain} {outcome : Except Error Report}
      {outcomes : List (Except Error Report)} {requests later : List Request} (step : Obeys m p outcome requests m')
      (run : Runs m' rest outcomes later m'') : Runs m (p :: rest) (outcome :: outcomes) (requests ++ later) m''

/-- The client does with the operation what a memory does that holds what its device holds. -/
def Followed (c : Client DirectLink) (p : Plain) : Prop :=
  ∃ outcome c' requests, c.perform (p.operation.run DirectLink.scene) = (outcome, c') ∧
    Obeys c.link.device.memory p outcome requests c'.link.device.memory ∧
    Client.Reaches c c' c'.link.device.memory requests

theorem allowed_iff (bank : Bank) (slave : UInt8) (address quantity : UInt16) :
    quantity ≠ 0 ∧ quantity ≤ bank.maxQuantity ↔
      0 < quantity.toNat ∧ quantity.toNat ≤ (read bank slave address quantity).ceiling := by
  have ceiling : bank.maxQuantity.toNat = (read bank slave address quantity).ceiling := by cases bank <;> rfl
  rw [← ceiling, UInt16.le_iff_toNat_le, Nat.pos_iff_ne_zero, ne_eq, ne_eq, ← UInt16.toNat_inj]
  rfl

theorem followed_read {c : Client DirectLink} (ready : c.link.Ready) (bank : Bank) (slave : UInt8)
    (address quantity : UInt16) : Followed c (read bank slave address quantity) := by
  by_cases range : quantity ≠ 0 ∧ quantity ≤ bank.maxQuantity
  · have inside := (allowed_iff bank slave address quantity).mp range
    obtain ⟨outcome, reached⟩ := bank.perform_read ready slave address range
    have same := reached.memory
    cases found : (c.link.device.memory.table bank).span? address.toNat quantity.toNat with
    | none =>
      rw [found] at outcome
      refine ⟨_, _, _, Client.perform_bind_error (Prod.ext outcome rfl) _, ?_, same ▸ reached⟩
      rw [same]
      exact .missing inside ((Device.Table.span?_eq_none_iff _ _ _).mp found)
    | some values =>
      rw [found] at outcome
      obtain ⟨length, cells⟩ := Device.Table.span?_eq_some_iff.mp found
      refine ⟨_, _, _, Client.perform_bind_ok (Prod.ext outcome rfl) _, ?_, same ▸ reached⟩
      change Obeys _ _ _ _ (c.perform (bank.read slave address quantity)).2.link.device.memory
      rw [same]
      exact .found inside length cells
  · have outside := Request.outside_of_not_inside range
    have beyond : quantity.toNat = 0 ∨ (read bank slave address quantity).ceiling < quantity.toNat := by
      rw [allowed_iff bank slave address] at range
      omega
    exact ⟨_, c, [], Client.perform_bind_error (bank.perform_read_out_of_range c slave address outside) _,
      .refused beyond rfl, .refl ready⟩

theorem followed_write {c : Client DirectLink} (ready : c.link.Ready) (s : Assignment) (slave : UInt8) :
    Followed c (write s slave) := by
  by_cases admissible : s.Admissible
  · have inside := s.admissible_iff.mp admissible
    obtain ⟨outcome, reached⟩ := s.perform_write ready slave admissible
    have after := reached.memory
    by_cases mapped : s.Mapped c.link.device.memory
    · rw [if_pos mapped] at outcome after
      have cells := (s.mapped_iff _).mp mapped
      refine ⟨_, _, _, Client.perform_bind_ok (Prod.ext outcome rfl) _, ?_, reached.memory ▸ reached⟩
      change Obeys _ _ _ _ (c.perform (s.write slave)).2.link.device.memory
      rw [after]
      refine .stored inside cells ?_ fun bank other => s.table_apply_of_ne _ other
      rw [s.table_apply]
      exact Device.Table.written_store cells inside.1
    · rw [if_neg mapped] at outcome after
      refine ⟨_, _, _, Client.perform_bind_error (Prod.ext outcome rfl) _, ?_, reached.memory ▸ reached⟩
      rw [after]
      exact .missing inside fun cells => mapped ((s.mapped_iff _).mpr cells)
  · obtain ⟨e, invalid, refused⟩ := s.write_out_of_range (σ := DirectLink) slave admissible
    have thrown : c.perform (s.write slave) = (.error e, c) := by rw [refused, Client.perform_throw]
    have outside : s.values.length = 0 ∨ s.ceiling < s.values.length := by
      rw [s.admissible_iff] at admissible
      omega
    exact ⟨_, c, [], Client.perform_bind_error thrown _, .refused outside invalid, .refl ready⟩

theorem followed {c : Client DirectLink} (ready : c.link.Ready) (p : Plain) : Followed c p := by
  cases p with
  | read bank slave address quantity => exact followed_read ready bank slave address quantity
  | write s slave => exact followed_write ready s slave

/-- Over a ready link, whatever the device holds, a run of plain operations has the outcomes, the requests and the
final memory of the same run on a memory. -/
theorem runs_runAll {c : Client DirectLink} (ready : c.link.Ready) (operations : List Plain) :
    let done := Operation.runAll DirectLink.scene (operations.map operation) c
    ∃ requests, Runs c.link.device.memory operations done.1 requests done.2.link.device.memory ∧
      done.2.sent = c.sent ++ requests := by
  induction operations generalizing c with
  | nil => exact ⟨[], .nil, (List.append_nil _).symm⟩
  | cons p rest ih =>
    obtain ⟨outcome, c', requests, performed, step, reached⟩ := followed ready p
    obtain ⟨later, run, sent⟩ := ih reached.ready
    refine ⟨requests ++ later, ?_, ?_⟩
    · simp only [List.map_cons, Operation.runAll, performed]
      exact .cons step run
    · simp only [List.map_cons, Operation.runAll, performed]
      rw [sent, reached.sent, List.append_assoc]

/-- A client of a device with two registers and the last coil. -/
def twoRegisters : Client DirectLink :=
  { link := { device := {
      holding := (Device.Table.empty.set 3 0).set 4 0
      coils := Device.Table.empty.set 0xFFFF true } } }

/-- Two registers are written and read back, a read goes past the last coil, and a write names no coil. -/
def writeReadBack : List Plain :=
  [write (.registers 3 [7, 8]) 1, read .holdingRegisters 1 3 2, read .coils 1 0xFFFF 2, write (.coils 0xFFFF []) 1]

/-- The device sees the first three operations only. -/
theorem runs_runAll_twoRegisters :
    let done := Operation.runAll DirectLink.scene (writeReadBack.map operation) twoRegisters
    (∃ requests, Runs twoRegisters.link.device.memory writeReadBack done.1 requests done.2.link.device.memory ∧
        done.2.sent = requests) ∧
      done.2.sent.map Request.function = [0x10, 0x03, 0x01] ∧ done.2.link.device.memory.holding.get? 4 = some 8 := by
  refine ⟨runs_runAll (c := twoRegisters) ⟨rfl, rfl⟩ writeReadBack, ?_, ?_⟩
  · decide +kernel
  · decide +kernel

end Plain

end Modbus
