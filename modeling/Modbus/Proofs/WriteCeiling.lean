import Modbus.Proofs.PlannedWrites

/-! The register ceiling of a device and the requests of a batch. Commands that are written together respect the
ceiling, whatever their widths; a command with a request of its own is written whole, so the ceiling is kept exactly if
no such command is wider. -/
namespace Modbus

/-- How many registers a request writes. -/
def Request.registersWritten (r : Request) : Nat :=
  match FunctionCode.ofByte? r.function with
  | some .writeSingleRegister => 1
  | some .writeMultipleRegisters => r.quantity.toNat
  | _ => 0

namespace Assignment

theorem registersWritten_registers (slave : UInt8) (address : UInt16) {values : List UInt16}
    (most : values.length ≤ Protocol.maxWriteRegisters.toNat) :
    ((registers address values).request slave).registersWritten = values.length := by
  have most : values.length ≤ 123 := most
  exact Word.toNat_ofNat (by omega)

theorem registersWritten_ofWords (slave : UInt8) (address : UInt16) {words : List UInt16}
    (admissible : (ofWords address words).Admissible) :
    ((ofWords address words).request slave).registersWritten = words.length := by
  match words with
  | [_] => rfl
  | [] | _ :: _ :: _ => exact registersWritten_registers slave address admissible.2

end Assignment

namespace Batch

variable {limits : Limits} {groups : List (Key × Array Command)}

/-- The commands of all groups that have a request each, as far as the batch gets without a refusal. -/
def singles (limits : Limits) : List (Key × Array Command) → List Command
  | [] => []
  | (key, commands) :: rest =>
    single key commands.toList ++
      if (Plan.group limits key commands.toList).failure.isNone then singles limits rest else []

theorem mem_writes_of_mem_single {key : Key} {commands : List Command} {c : Command} (alone : c ∈ single key commands) :
    (key.slave, .ofWords c.address c.words) ∈ (Plan.group limits key commands).writes := by
  have registers (held : c ∈ if Client.coalescable commands then [] else commands.takeWhile Command.encodes) :
      (key.slave, .ofWords c.address c.words) ∈ (Plan.registers limits key.slave commands).writes := by
    unfold Plan.registers
    split at held
    case isTrue => nomatch held
    case isFalse apart =>
      rw [if_neg apart, Plan.writes_each]
      exact List.mem_map.mpr ⟨c, held, rfl⟩
  unfold single at alone
  unfold Plan.group
  cases code : FunctionCode.ofByte? key.function with
  | none => rw [code] at alone; nomatch alone
  | some f =>
    rw [code] at alone
    cases f with
    | writeSingleRegister | writeMultipleRegisters => exact registers alone
    | _ => nomatch alone

/-- Every command with a request of its own is planned. -/
theorem exists_mem_writes_of_mem_singles {c : Command} (alone : c ∈ singles limits groups) :
    (∃ slave, (slave, .ofWords c.address c.words) ∈ (Plan.ofGroups limits groups).writes) ∧
      (Assignment.ofWords c.address c.words).Admissible := by
  induction groups with
  | nil => nomatch alone
  | cons group rest ih =>
    rw [Plan.ofGroups, Plan.writes_append]
    rcases List.mem_append.mp alone with here | later
    · obtain ⟨-, t, -, size⟩ := encodes_of_mem_single here
      exact ⟨⟨_, List.mem_append_left _ (mem_writes_of_mem_single here)⟩,
        Assignment.admissible_ofWords c.address size⟩
    · split at later
      case isTrue unfailing =>
        rw [if_pos unfailing]
        obtain ⟨⟨slave, planned⟩, admissible⟩ := ih later
        exact ⟨⟨slave, List.mem_append_right _ planned⟩, admissible⟩
      case isFalse => exact absurd later List.not_mem_nil

/-- A planned write respects the ceiling, or it is that of a command with a request of its own. -/
theorem registersWritten_le_or_single {w : UInt8 × Assignment} (planned : w ∈ (Plan.ofGroups limits groups).writes) :
    (w.2.request w.1).registersWritten ≤ limits.writeCeiling ∨
      ∃ c ∈ singles limits groups, (w.2.request w.1).registersWritten = c.words.length := by
  induction groups with
  | nil => nomatch planned
  | cons group rest ih =>
    rw [Plan.ofGroups, Plan.writes_append] at planned
    rcases List.mem_append.mp planned with here | later
    · rcases mem_writes_group here with ⟨c, -, rfl⟩ | ⟨c, alone, rfl⟩ | ⟨start, values, rfl, -, most⟩
      · exact .inl (Nat.zero_le _)
      · obtain ⟨-, t, -, size⟩ := encodes_of_mem_single alone
        exact .inr ⟨c, List.mem_append_left _ alone,
          Assignment.registersWritten_ofWords _ _ (Assignment.admissible_ofWords c.address size)⟩
      · rw [Assignment.registersWritten_registers _ _ (Nat.le_trans most (Nat.min_le_right _ _))]
        exact .inl most
    · split at later
      case isTrue unfailing =>
        refine (ih later).imp_right ?_
        rintro ⟨c, alone, size⟩
        refine ⟨c, List.mem_append_right _ ?_, size⟩
        rwa [if_pos unfailing]
      case isFalse => exact absurd later List.not_mem_nil

/-- A command takes four registers at most. -/
theorem length_words_le_of_mem_singles {c : Command} (alone : c ∈ singles limits groups) :
    c.words.length ≤ Protocol.maxWriteRegisters.toNat := by
  obtain ⟨-, admissible⟩ := exists_mem_writes_of_mem_singles alone
  match words : c.words with
  | [_] | [] => exact Nat.le_of_ble_eq_true rfl
  | _ :: _ :: _ => rw [words] at admissible; exact admissible.2

end Batch

/-- A link over which every request is confirmed. -/
structure Confirming where

namespace Confirming

instance : Link Confirming where
  send l r := (.ok ⟨r.echo, Nat.le_of_ble_eq_true rfl⟩, l)
  isConnected _ := true
  close l := l
  stats _ := {}
  elapse l _ := l

end Confirming

namespace Client

theorem perform_write_confirming (c : Client Confirming) (slave : UInt8) {s : Assignment} (admissible : s.Admissible) :
    (c.perform (s.write slave)).1 = .ok () := by
  have plain : FunctionCode.isException (s.request slave).function = false := by
    rw [s.function_request]
    exact s.code.isException_toByte
  rw [s.write_eq slave admissible, write_eq_ask, (perform_ask c _ _).1]
  exact Response.checkEcho_echo plain rfl

/-- Where every request is confirmed, all writes are done. -/
theorem perform_writeInTurn_confirming (delay : Nat) (writes : List (UInt8 × Assignment))
    (admissible : ∀ w ∈ writes, w.2.Admissible) (issued : Bool) (c : Client Confirming) :
    ∃ x, (c.perform (writeInTurn delay writes issued)).1 = .ok x := by
  induction writes generalizing issued c with
  | nil => exact ⟨issued, rfl⟩
  | cons w rest ih =>
    obtain ⟨here, admissible⟩ := List.forall_mem_cons.mp admissible
    have written := perform_write_confirming (c.paced delay issued) w.1 here
    rw [writeInTurn, perform_bind_ok (perform_pace delay issued c), perform_bind_ok (Prod.ext written rfl)]
    exact ih admissible true _

/-- Over every link all requests of a batch respect the ceiling of the device and that of the protocol, exactly if no
command with a request of its own is wider than the device allows. -/
theorem writeBatch_within_ceiling_iff (batch : Batch) (limits : Limits) :
    (∀ (σ : Type) [Link σ] (c : Client σ), ∃ requests,
        (c.perform (writeBatch batch limits)).2.sent = c.sent ++ requests ∧
          ∀ r ∈ requests, r.registersWritten ≤ min limits.maxWriteRegisters.toNat 123) ↔
      ∀ command ∈ Batch.singles limits batch.groups, command.words.length ≤ limits.maxWriteRegisters.toNat := by
  have admissible : ∀ w ∈ (batch.plan limits).writes, w.2.Admissible := fun _ => Batch.admissible_writes
  constructor
  · intro within command alone
    let c : Client Confirming := { link := {} }
    obtain ⟨requests, sent, small⟩ := within Confirming c
    obtain ⟨x, ok⟩ := perform_writeInTurn_confirming limits.delayMs _ admissible false c
    obtain ⟨k, -, all, whole⟩ := exists_sent_writeInTurn limits.delayMs _ admissible false c
    rw [(perform_writeBatch batch limits c).1, all, whole x ok, List.take_length] at sent
    obtain rfl := List.append_cancel_left sent
    obtain ⟨⟨slave, planned⟩, fits⟩ := Batch.exists_mem_writes_of_mem_singles alone
    have size := small _ (List.mem_map_of_mem planned)
    rw [Assignment.registersWritten_ofWords slave command.address fits] at size
    exact Nat.le_trans size (Nat.min_le_left _ _)
  · intro narrow σ _ c
    obtain ⟨k, -, sent, -⟩ := exists_sent_writeInTurn limits.delayMs _ admissible false c
    refine ⟨_, (congrArg Client.sent (perform_writeBatch batch limits c).1).trans sent, ?_⟩
    intro r given
    obtain ⟨w, member, rfl⟩ := List.mem_map.mp given
    rcases Batch.registersWritten_le_or_single (List.mem_of_mem_take member) with small | ⟨command, alone, size⟩
    · exact small
    · rw [size]
      exact Nat.le_min.mpr ⟨narrow command alone, Batch.length_words_le_of_mem_singles alone⟩

/-- A client of a device with two registers. -/
def twoCells : Client DirectLink :=
  { link := { device := { holding := (Device.Table.empty.set 0 0).set 1 0 } } }

/-- A value of two registers, alone in its group. -/
def wideValue : Batch :=
  { groups := [
      (⟨1, 0x10⟩, #[{ slave := 1, function := 0x10, address := 0, value := .u32 0x00010002, tag := "uint32" }])] }

/-- A device that takes one register in a request is given two at once. -/
theorem wideValue_over_ceiling :
    let done := twoCells.perform (writeBatch wideValue { maxWriteRegisters := 1 })
    done.1.isOk ∧ done.2.sent.map Request.registersWritten = [2] := by
  decide +kernel

end Client

end Modbus
