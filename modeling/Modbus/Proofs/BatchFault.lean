import Mathlib.Algebra.GroupWithZero.Nat
import Modbus.Proofs.BatchWrite
import Modbus.Proofs.Covering
import Modbus.Proofs.PlannedWrites

/-! What a batch fails by when no request of it fails: the first key that is no write, the first command of an unknown
type, or the first row of registers that runs past the last address or that the device takes no register of. -/
namespace Modbus

/-- Only an unknown type keeps a command from being encoded. -/
def Command.fault? (c : Command) : Option Error :=
  if DataType.ofTag? c.tag = none then some (.unsupportedType c.tag) else none

theorem Command.encode_eq (c : Command) : c.encode = c.fault?.elim (.ok c.words) .error := by
  unfold fault?
  cases known : DataType.ofTag? c.tag with
  | none => simp only [encode, Value.encodeAs, known, if_pos, Option.elim_some]
  | some t => exact (encode_of_tag known).1

namespace Batch

/-- How many registers the commands span. -/
def total (commands : List Command) : Nat := (commands.map Command.span).sum

def rowFault? (limits : Limits) (commands : List Command) : Option Error :=
  if 0x10000 < lowest commands + total commands then some (.coalescedPastEnd (total commands) (lowest commands))
  else if limits.maxWriteRegisters = 0 then some .writeLimitZero
  else none

def groupFault? (limits : Limits) (key : Key) (commands : List Command) : Option Error :=
  match FunctionCode.ofByte? key.function with
  | some .writeSingleCoil | some .writeMultipleCoils => none
  | some .writeSingleRegister | some .writeMultipleRegisters =>
    if Client.coalescable commands then rowFault? limits commands else commands.findSome? Command.fault?
  | _ => some (.notBatchableWrite key.function)

def fault? (batch : Batch) (limits : Limits) : Option Error :=
  batch.groups.findSome? fun group => groupFault? limits group.1 group.2.toList

variable {commands : List Command}

theorem lowest_eq_of_byAddress {first : Command} {rest : List Command} (sorted : byAddress commands = first :: rest) :
    lowest commands = first.address.toNat := by
  have order := perm_byAddress commands
  have ascending := pairwise_byAddress commands
  rw [sorted] at order ascending
  have held : first ∈ commands := order.mem_iff.mp List.mem_cons_self
  refine Nat.le_antisymm (lowest_le held) (le_lowest (List.ne_nil_of_mem held) fun c member => ?_)
  rcases List.mem_cons.mp (order.mem_iff.mpr member) with rfl | later
  · exact Nat.le_refl _
  · exact UInt16.le_iff_toNat_le.mp ((List.pairwise_cons.mp ascending).1 c later)

theorem length_registers_byAddress (sizes : ∀ c ∈ commands, c.words.length = c.span) :
    (registers (byAddress commands)).length = total commands := by
  have order := perm_byAddress commands
  rw [registers, List.length_flatMap, total, ← (order.map Command.span).sum_nat]
  refine congrArg List.sum (List.map_congr_left fun c member => sizes c (order.mem_iff.mp member))

theorem writeCeiling_eq_zero_iff {limits : Limits} : limits.writeCeiling = 0 ↔ limits.maxWriteRegisters = 0 := by
  have most : Protocol.maxWriteRegisters.toNat = 123 := rfl
  rw [Limits.writeCeiling, most, ← UInt16.toNat_inj, UInt16.toNat_zero]
  omega

theorem rowFault?_eq_none_iff {limits : Limits} :
    rowFault? limits commands = none ↔ lowest commands + total commands ≤ 0x10000 ∧ 0 < limits.writeCeiling := by
  rw [Nat.pos_iff_ne_zero, Ne, writeCeiling_eq_zero_iff, rowFault?]
  split
  case isTrue past => exact iff_of_false nofun fun both => Nat.not_le_of_lt past both.1
  case isFalse short =>
    split
    case isTrue zero => exact iff_of_false nofun fun both => both.2 zero
    case isFalse some => exact iff_of_true rfl ⟨Nat.le_of_not_lt short, some⟩

namespace Plan

/-- Commands that are written together are one row of registers from the lowest address on, unless the row has a
fault. -/
theorem coalesced_eq (limits : Limits) (slave : UInt8) (together : Client.coalescable commands = true) :
    (Batch.registers (byAddress commands)).length = total commands ∧
      coalesced limits slave commands =
        (rowFault? limits commands).elim
          (ofWrites slave (Assignment.pieces limits.writeCeiling (lowest commands)
            (Batch.registers (byAddress commands))))
          ofFailure := by
  obtain ⟨known, first, rest, sorted, -⟩ := Client.row_of_coalescable together
  have size := length_registers_byAddress fun c member => (known c member).2
  have encoded : Client.encodeAll (byAddress commands) = .ok (Batch.registers (byAddress commands)) :=
    Client.encodeAll_eq fun c member => (known c ((perm_byAddress commands).mem_iff.mp member)).1
  have start : ((byAddress commands).head?.elim 0 fun c => c.address.toNat) = lowest commands := by
    rw [lowest_eq_of_byAddress sorted, sorted]
    rfl
  refine ⟨size, ?_⟩
  unfold coalesced rowFault?
  dsimp only
  rw [encoded]
  dsimp only
  simp only [start, size, writeCeiling_eq_zero_iff, Protocol.addressSpaceSize]
  split
  · rfl
  · split <;> rfl

theorem failure_append (p q : Plan) : (p.append q).failure = p.failure.or q.failure := by
  obtain ⟨writes, failure⟩ := p
  cases failure <;> rfl

theorem failure_each (slave : UInt8) (commands : List Command) :
    (each slave commands).failure = commands.findSome? Command.fault? := by
  induction commands with
  | nil => rfl
  | cons c rest ih =>
    rw [each, c.encode_eq, List.findSome?_cons]
    cases c.fault? with
    | none =>
      dsimp only [Option.elim_none]
      rw [failure_append, ih]
      rfl
    | some e => rfl

theorem failure_group (limits : Limits) (key : Key) (commands : List Command) :
    (group limits key commands).failure = groupFault? limits key commands := by
  have registers : (registers limits key.slave commands).failure =
      if Client.coalescable commands then rowFault? limits commands else commands.findSome? Command.fault? := by
    unfold Plan.registers
    split
    case isTrue together =>
      rw [(coalesced_eq limits key.slave together).2]
      cases rowFault? limits commands <;> rfl
    case isFalse => exact failure_each key.slave commands
  unfold group groupFault?
  cases FunctionCode.ofByte? key.function with
  | none => rfl
  | some f =>
    cases f with
    | writeSingleRegister | writeMultipleRegisters => exact registers
    | _ => rfl

theorem failure_ofGroups (limits : Limits) (groups : List (Key × Array Command)) :
    (ofGroups limits groups).failure = groups.findSome? fun group => groupFault? limits group.1 group.2.toList := by
  induction groups with
  | nil => rfl
  | cons group rest ih =>
    rw [ofGroups, failure_append, failure_group, ih, List.findSome?_cons]
    cases groupFault? limits group.1 group.2.toList <;> rfl

end Plan

/-- A plan ends with the first fault of its batch. -/
theorem failure_plan (batch : Batch) (limits : Limits) : (batch.plan limits).failure = batch.fault? limits :=
  Plan.failure_ofGroups limits batch.groups

end Batch

end Modbus
