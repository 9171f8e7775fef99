import Modbus.Proofs.BatchPlan

/-! What a batch plans. A write carries a coil, the registers of one command, or a piece of a row of commands, and never
more than one request can hold. -/
namespace Modbus

def Command.encodes (c : Command) : Bool := c.encode.isOk

/-- A command that can be encoded has a known type, whose registers one request can carry. -/
theorem Command.exists_tag_of_encode {c : Command} {words : List UInt16} (encoded : c.encode = .ok words) :
    c.words = words ∧ ∃ t, DataType.ofTag? c.tag = some t ∧ words.length = t.width := by
  have same : c.words = words := by rw [Command.words, encoded]
  refine ⟨same, ?_⟩
  cases known : DataType.ofTag? c.tag with
  | none => rw [Command.encode, Value.encodeAs, known] at encoded; nomatch encoded
  | some t => exact ⟨t, rfl, same ▸ (Command.encode_of_tag known).2⟩

namespace Assignment

theorem admissible_ofWords (address : UInt16) {words : List UInt16} {t : DataType} (size : words.length = t.width) :
    (ofWords address words).Admissible := by
  match words with
  | [_] => trivial
  | [] => cases t <;> nomatch size
  | _ :: _ :: _ =>
    change 0 < _ ∧ _ ≤ 123
    rw [size]
    cases t <;> decide

theorem mem_pieces {ceiling address : Nat} {words : List UInt16} {s : Assignment}
    (member : s ∈ pieces ceiling address words) :
    ∃ (start : UInt16) (values : List UInt16), s = .registers start values ∧ 0 < values.length ∧
      values.length ≤ ceiling := by
  induction size : words.length using Nat.strongRecOn generalizing address words with
  | ind remaining ih =>
    subst size
    rw [pieces] at member
    split at member
    case isTrue more =>
      rcases List.mem_cons.mp member with rfl | later
      · exact ⟨_, _, rfl, by rw [List.length_take]; omega, List.length_take_le ..⟩
      · exact ih _ (by rw [List.length_drop]; omega) later rfl
    case isFalse => exact absurd member List.not_mem_nil

end Assignment

namespace Batch.Plan

theorem writes_append (p q : Plan) :
    (p.append q).writes = p.writes ++ (if p.failure.isNone then q.writes else []) := by
  obtain ⟨writes, failure⟩ := p
  cases failure with
  | none => rfl
  | some e => exact (List.append_nil _).symm

/-- Commands that are written one by one are written as far as they can be encoded. -/
theorem writes_each (slave : UInt8) (commands : List Command) :
    (each slave commands).writes =
      (commands.takeWhile Command.encodes).map fun c => (slave, .ofWords c.address c.words) := by
  induction commands with
  | nil => rfl
  | cons c rest ih =>
    rw [each]
    cases encoded : c.encode with
    | error e =>
      have unknown : ¬ c.encodes = true := by rw [Command.encodes, encoded]; exact Bool.false_ne_true
      rw [List.takeWhile_cons_of_neg unknown]
      rfl
    | ok words =>
      have known : c.encodes = true := by rw [Command.encodes, encoded]; rfl
      rw [List.takeWhile_cons_of_pos known, List.map_cons, (Command.exists_tag_of_encode encoded).1]
      dsimp only
      rw [writes_append, ih]
      rfl

theorem mem_writes_coalesced {limits : Limits} {slave : UInt8} {commands : List Command} {w : UInt8 × Assignment}
    (member : w ∈ (coalesced limits slave commands).writes) :
    ∃ (start : UInt16) (values : List UInt16), w = (slave, .registers start values) ∧ 0 < values.length ∧
      values.length ≤ limits.writeCeiling := by
  unfold coalesced at member
  dsimp only at member
  split at member
  · nomatch member
  · split at member
    · nomatch member
    · split at member
      · nomatch member
      · obtain ⟨s, piece, rfl⟩ := List.mem_map.mp member
        obtain ⟨start, values, rfl, bounds⟩ := Assignment.mem_pieces piece
        exact ⟨start, values, rfl, bounds⟩

end Batch.Plan

namespace Batch

/-- The commands of a group that have a write each: none if they are written together, and otherwise as many as can
be encoded. -/
def single (key : Key) (commands : List Command) : List Command :=
  match FunctionCode.ofByte? key.function with
  | some .writeSingleRegister | some .writeMultipleRegisters =>
    if Client.coalescable commands then [] else commands.takeWhile Command.encodes
  | _ => []

/-- What a group plans: its coils, the registers of one of its commands, or a piece of a row. -/
theorem mem_writes_group {limits : Limits} {key : Key} {commands : List Command} {w : UInt8 × Assignment}
    (member : w ∈ (Plan.group limits key commands).writes) :
    (∃ c ∈ commands, w = (key.slave, .coil c.address !c.value.isZero)) ∨
      (∃ c ∈ single key commands, w = (key.slave, .ofWords c.address c.words)) ∨
      ∃ (start : UInt16) (values : List UInt16), w = (key.slave, .registers start values) ∧ 0 < values.length ∧
        values.length ≤ limits.writeCeiling := by
  have coils (found : w ∈ (Plan.coils key.slave commands).writes) :
      ∃ c ∈ commands, w = (key.slave, .coil c.address !c.value.isZero) := by
    obtain ⟨_, mapped, rfl⟩ := List.mem_map.mp found
    obtain ⟨c, held, rfl⟩ := List.mem_map.mp mapped
    exact ⟨c, held, rfl⟩
  have registers (found : w ∈ (Plan.registers limits key.slave commands).writes) :
      (∃ c ∈ if Client.coalescable commands then [] else commands.takeWhile Command.encodes,
        w = (key.slave, .ofWords c.address c.words)) ∨
        ∃ (start : UInt16) (values : List UInt16), w = (key.slave, .registers start values) ∧ 0 < values.length ∧
          values.length ≤ limits.writeCeiling := by
    unfold Plan.registers at found
    split
    case isTrue together =>
      rw [if_pos together] at found
      exact .inr (Plan.mem_writes_coalesced found)
    case isFalse apart =>
      rw [if_neg apart, Plan.writes_each] at found
      obtain ⟨c, held, rfl⟩ := List.mem_map.mp found
      exact .inl ⟨c, held, rfl⟩
  unfold Plan.group at member
  unfold single
  cases code : FunctionCode.ofByte? key.function with
  | none => rw [code] at member; nomatch member
  | some f =>
    rw [code] at member
    cases f with
    | writeSingleCoil | writeMultipleCoils => exact .inl (coils member)
    | writeSingleRegister | writeMultipleRegisters => exact .inr (registers member)
    | _ => nomatch member

theorem encodes_of_mem_single {key : Key} {commands : List Command} {c : Command} (member : c ∈ single key commands) :
    c.encode = .ok c.words ∧ ∃ t, DataType.ofTag? c.tag = some t ∧ c.words.length = t.width := by
  have encodes : c.encodes = true := by
    unfold single at member
    split at member
    case h_1 | h_2 =>
      split at member
      · nomatch member
      · exact List.all_eq_true.mp List.all_takeWhile c member
    case h_3 => nomatch member
  unfold Command.encodes at encodes
  cases encoded : c.encode with
  | error e => rw [encoded] at encodes; nomatch encodes
  | ok words =>
    obtain ⟨rfl, typed⟩ := Command.exists_tag_of_encode encoded
    exact ⟨rfl, typed⟩

/-- One request can carry any planned write. -/
theorem admissible_writes {limits : Limits} {groups : List (Key × Array Command)} {w : UInt8 × Assignment}
    (member : w ∈ (Plan.ofGroups limits groups).writes) : w.2.Admissible := by
  induction groups with
  | nil => nomatch member
  | cons group rest ih =>
    rw [Plan.ofGroups, Plan.writes_append] at member
    rcases List.mem_append.mp member with here | later
    · rcases mem_writes_group here with ⟨c, -, rfl⟩ | ⟨c, alone, rfl⟩ | ⟨start, values, rfl, some, most⟩
      · trivial
      · obtain ⟨-, t, -, size⟩ := encodes_of_mem_single alone
        exact Assignment.admissible_ofWords c.address size
      · exact ⟨some, Nat.le_trans most (Nat.min_le_right _ _)⟩
    · split at later
      · exact ih later
      · exact absurd later List.not_mem_nil

end Batch

end Modbus
