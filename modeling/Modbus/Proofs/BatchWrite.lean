import Modbus.Proofs.Command
import Modbus.Proofs.Storing

/-! Batches. Whatever is sorted, joined and split again on the way to the device, a batch leaves the memory that
its commands leave one by one. -/
namespace Modbus

open Client (Stores)

/-- What the commands of a batch do one by one, group after group. -/
def Batch.apply (m : Memory) (groups : List (Batch.Key × Array Command)) : Memory :=
  groups.foldl (fun m group => m.applyAll group.1.function group.2.toList) m

namespace Client

variable {limits : Limits} {slave : UInt8} {issued : Bool}

theorem writeCoilGroup_stores (delay : Nat) (slave : UInt8) (commands : List Command) (issued : Bool) :
    Stores (writeCoilGroup delay slave commands issued) (fun m => ∀ c ∈ commands, m.coils.Maps c.address.toNat 1)
      fun m => commands.foldl (fun m c => (Assignment.coil c.address !c.value.isZero).apply m) m := by
  induction commands generalizing issued with
  | nil => exact (Stores.pure issued).conseq (fun _ _ => trivial) fun _ => rfl
  | cons c rest ih =>
    have coil := Assignment.stores (.coil c.address !c.value.isZero) slave
    refine ((pace_stores delay issued).bind fun _ => coil.bind fun _ => ih true).conseq ?_ fun _ => rfl
    intro m mapped
    obtain ⟨here, mapped⟩ := List.forall_mem_cons.mp mapped
    exact ⟨trivial, ⟨trivial, here⟩, fun c member => Device.Table.maps_store (mapped c member) _ _⟩

/-- Every known type takes as many registers as one request can carry. -/
theorem admissible_words {c : Command} {t : DataType} (known : DataType.ofTag? c.tag = some t) :
    (Assignment.registers c.address c.words).Admissible := by
  have size := (Command.encode_of_tag known).2
  simp only [Assignment.Admissible, size]
  cases t <;> decide

theorem writeEach_stores (delay : Nat) (slave : UInt8) (commands : List Command) (issued : Bool) :
    Stores (writeEach delay slave commands issued)
      (fun m => ∀ c ∈ commands, ∃ t, DataType.ofTag? c.tag = some t ∧ m.holding.Maps c.address.toNat t.width)
      fun m => commands.foldl (fun m c => (Assignment.registers c.address c.words).apply m) m := by
  induction commands generalizing issued with
  | nil => exact (Stores.pure issued).conseq (fun _ _ => trivial) fun _ => rfl
  | cons c rest ih =>
    rw [writeEach]
    cases known : DataType.ofTag? c.tag with
    | none =>
      have unknown : c.encode = .error (.unsupportedType c.tag) := by
        simp only [Command.encode, Value.encodeAs, known]
      rw [unknown]
      refine Stores.conseq (Stores.throw (.unsupportedType c.tag) _) ?_ fun _ => rfl
      intro m fits
      obtain ⟨t, tagged, -⟩ := fits c List.mem_cons_self
      rw [known] at tagged
      nomatch tagged
    | some t =>
      obtain ⟨encoded, size⟩ := Command.encode_of_tag known
      rw [encoded, settled_ok_bind]
      have words := writeWords_stores slave c.address c.words
      refine ((pace_stores delay issued).bind fun _ => words.bind fun _ => ih true).conseq ?_ fun _ => rfl
      intro m fits
      obtain ⟨⟨t', tagged, here⟩, fits⟩ := List.forall_mem_cons.mp fits
      obtain rfl := Option.some.inj (known.symm.trans tagged)
      refine ⟨trivial, ⟨admissible_words known, size ▸ here⟩, ?_⟩
      intro c member
      exact (fits c member).imp fun _ fits => ⟨fits.1, Device.Table.maps_store fits.2 _ _⟩

theorem encodeAll_eq {commands : List Command} (encoded : ∀ c ∈ commands, c.encode = .ok c.words) :
    encodeAll commands = .ok (Batch.registers commands) := by
  have parts : commands.mapM Command.encode = .ok (commands.map Command.words) := by
    induction commands with
    | nil => rfl
    | cons c rest ih =>
      obtain ⟨here, encoded⟩ := List.forall_mem_cons.mp encoded
      rw [List.mapM_cons, here, ih encoded]
      rfl
  rw [encodeAll, parts]
  rfl

/-- Commands that are written together are a row when sorted, and each of them spans the registers of its value. -/
theorem row_of_coalescable {commands : List Command} (whole : coalescable commands = true) :
    (∀ c ∈ commands, c.encode = .ok c.words ∧ c.words.length = c.span) ∧
      ∃ first rest, Batch.byAddress commands = first :: rest ∧
        Batch.contiguousFrom first.address.toNat (first :: rest) = true := by
  simp only [coalescable, Batch.areConsecutive, Bool.and_eq_true, List.all_eq_true] at whole
  obtain ⟨typed, -, row⟩ := whole
  constructor
  · intro c member
    obtain ⟨t, tag, register⟩ := Option.any_eq_true _ _ |>.mp (typed c member)
    obtain ⟨encoded, size⟩ := Command.encode_of_tag tag
    refine ⟨encoded, size.trans ?_⟩
    rw [Command.span, DataType.registersOfTag, tag]
    cases t with
    | bool => nomatch register
    | _ => rfl
  · cases sorted : Batch.byAddress commands with
    | nil => rw [sorted] at row; nomatch row
    | cons first rest => rw [sorted] at row; exact ⟨first, rest, rfl, row⟩

/-- The coalesced path writes what the plain path would, and needs no more of the device than that. -/
theorem writeCoalesced_stores (limits : Limits) (slave : UInt8) {commands : List Command}
    (whole : coalescable commands = true) (issued : Bool) :
    Stores (writeCoalesced limits slave commands issued)
      (fun m => limits.maxWriteRegisters ≠ 0 ∧ ∀ c ∈ commands, m.holding.Maps c.address.toNat c.words.length)
      fun m => commands.foldl (fun m c => (Assignment.registers c.address c.words).apply m) m := by
  obtain ⟨known, first, rest, sorted, row⟩ := row_of_coalescable whole
  have order : (Batch.byAddress commands).Perm commands := List.mergeSort_perm ..
  have sizes : ∀ c ∈ commands, c.words.length = c.span := by
    intro c member
    exact (known c member).2
  have all : encodeAll (Batch.byAddress commands) = .ok (Batch.registers (Batch.byAddress commands)) :=
    encodeAll_eq fun c member => (known c (order.mem_iff.mp member)).1
  rw [writeCoalesced_eq, all, settled_ok_bind, sorted]
  rw [sorted] at order
  have mapped {m : Memory} (fits : ∀ c ∈ commands, m.holding.Maps c.address.toNat c.words.length) :
      m.holding.Maps first.address.toNat (Batch.registers (first :: rest)).length :=
    Batch.maps_of_contiguousFrom row (fun c member => sizes c (order.mem_iff.mp member))
      fun c member => fits c (order.mem_iff.mp member)
  dsimp only [List.head?_cons, Option.elim_some]
  split
  case isTrue past =>
    have small := first.address.toNat_lt
    unfold Protocol.addressSpaceSize at past
    refine (Stores.throw _ _).conseq ?_ fun _ => rfl
    intro m fits
    have := (mapped fits.2).inside (by omega)
    omega
  case isFalse inside =>
    split
    case isTrue none =>
      have most : Protocol.maxWriteRegisters.toNat = 123 := rfl
      have zero : limits.maxWriteRegisters.toNat = (0 : UInt16).toNat := by
        rw [UInt16.toNat_zero]
        omega
      exact (Stores.throw _ _).conseq (fun _ fits => fits.1 (UInt16.toNat_inj.mp zero)) fun _ => rfl
    case isFalse positive =>
      have run := writeRun_stores limits.delayMs (Nat.pos_of_ne_zero positive) (Nat.min_le_right _ _) slave
        first.address.toNat (Batch.registers (first :: rest)) issued
      exact run.conseq (fun _ fits => mapped fits.2) fun m =>
        (Batch.foldl_apply_of_perm order row sizes (Nat.le_of_not_lt inside) m).symm

theorem writeRegisterGroup_stores (limits : Limits) (slave : UInt8) (commands : List Command) (issued : Bool) :
    Stores (writeRegisterGroup limits slave commands issued)
      (fun m => limits.maxWriteRegisters ≠ 0 ∧
        ∀ c ∈ commands, ∃ t, DataType.ofTag? c.tag = some t ∧ m.holding.Maps c.address.toNat t.width)
      fun m => commands.foldl (fun m c => (Assignment.registers c.address c.words).apply m) m := by
  unfold writeRegisterGroup
  split
  case isTrue whole =>
    refine (writeCoalesced_stores limits slave whole issued).conseq ?_ fun _ => rfl
    intro m fits
    refine ⟨fits.1, ?_⟩
    intro c member
    obtain ⟨t, tag, mapped⟩ := fits.2 c member
    rwa [(Command.encode_of_tag tag).2]
  case isFalse =>
    exact (writeEach_stores limits.delayMs slave commands issued).conseq (fun _ fits => fits.2) fun _ => rfl

theorem writeGroup_stores (limits : Limits) (key : Batch.Key) (commands : List Command) (issued : Bool) :
    Stores (writeGroup limits key commands issued)
      (fun m => limits.maxWriteRegisters ≠ 0 ∧ FunctionCode.isWrite key.function = true ∧
        ∀ c ∈ commands, c.Fits key.function m)
      fun m => m.applyAll key.function commands := by
  have coils := writeCoilGroup_stores limits.delayMs key.slave commands issued
  have registers := writeRegisterGroup_stores limits key.slave commands issued
  have other : Stores (throw (.notBatchableWrite key.function) : Action DirectLink Bool) (fun _ => False)
      fun m => m.applyAll key.function commands := Stores.throw _ _
  unfold writeGroup FunctionCode.isWrite
  unfold Memory.applyAll Command.apply Command.Fits at *
  cases code : FunctionCode.ofByte? key.function with
  | none => exact (code ▸ other).conseq (fun _ fits => nomatch fits.2.1) fun _ => rfl
  | some f =>
    rw [code] at other
    cases f with
    | writeSingleCoil | writeMultipleCoils => exact coils.conseq (fun _ fits => fits.2.2) fun _ => rfl
    | writeSingleRegister | writeMultipleRegisters =>
      exact registers.conseq (fun _ fits => ⟨fits.1, fits.2.2⟩) fun _ => rfl
    | _ => exact other.conseq (fun _ fits => nomatch fits.2.1) fun _ => rfl

theorem writeGroups_stores (limits : Limits) (groups : List (Batch.Key × Array Command)) (issued : Bool) :
    Stores (writeGroups limits groups issued)
      (fun m => limits.maxWriteRegisters ≠ 0 ∧ ∀ group ∈ groups, FunctionCode.isWrite group.1.function = true ∧
        ∀ c ∈ group.2.toList, c.Fits group.1.function m)
      fun m => Batch.apply m groups := by
  induction groups generalizing issued with
  | nil => exact (Stores.pure ()).conseq (fun _ _ => trivial) fun _ => rfl
  | cons group rest ih =>
    have first := writeGroup_stores limits group.1 group.2.toList issued
    refine (first.bind fun issued => ih issued).conseq ?_ fun _ => rfl
    rintro m ⟨positive, fits⟩
    obtain ⟨here, fits⟩ := List.forall_mem_cons.mp fits
    refine ⟨⟨positive, here⟩, positive, ?_⟩
    intro group member
    refine ⟨(fits group member).1, ?_⟩
    intro c held
    exact ((fits group member).2 c held).within (m.within_applyAll _ _)

/-- Over a ready link, a batch of writes that succeeds leaves the memory that its commands leave one by one, in the
order of the groups and of each group. It does succeed if the device takes a register at all and every command
fits. -/
theorem writeBatch_applies_commands (batch : Batch)
    (writes : ∀ group ∈ batch.groups, FunctionCode.isWrite group.1.function = true) (limits : Limits)
    {c : Client DirectLink} (ready : c.link.Ready) :
    let m := c.link.device.memory
    let done := c.perform (writeBatch batch limits)
    (done.1 = .ok () → done.2.link.device.memory = Batch.apply m batch.groups) ∧
      (1 ≤ limits.maxWriteRegisters →
        (∀ group ∈ batch.groups, ∀ command ∈ group.2.toList, command.Fits group.1.function m) →
        done.1 = .ok ()) := by
  have stores := writeGroups_stores limits batch.groups false
  refine ⟨stores.effect c () ready, ?_⟩
  intro positive fits
  have some : limits.maxWriteRegisters ≠ 0 := by
    intro none
    rw [none] at positive
    exact absurd positive (by decide)
  obtain ⟨_, ok⟩ := stores.succeeds c ready ⟨some, fun group member => ⟨writes group member, fits group member⟩⟩
  exact ok

/-- A device with one coil and the last three registers. -/
def smallDevice : Client DirectLink :=
  { link := { device := {
      coils := Device.Table.empty.set 3 false
      holding := ((Device.Table.empty.set 0xFFFD 0).set 0xFFFE 0).set 0xFFFF 0 } } }

/-- A coil, and three registers by two commands, the second command first. -/
def smallBatch : Batch :=
  { groups := [
      (⟨1, 0x05⟩, #[{ slave := 1, function := 0x05, address := 3, value := .bool true }]),
      (⟨1, 0x10⟩, #[
        { slave := 1, function := 0x10, address := 0xFFFF, value := .u16 7, tag := "uint16" },
        { slave := 1, function := 0x10, address := 0xFFFD, value := .u32 0x00010002, tag := "uint32" }])] }

/-- The three registers go out in a request of two and one of one, though the first command has one and the
second has two. -/
theorem writeBatch_smallBatch :
    let done := smallDevice.perform (writeBatch smallBatch { maxWriteRegisters := 2 })
    done.1 = .ok () ∧ done.2.link.device.memory.coils.get? 3 = some true ∧
      (List.map (done.2.link.device.memory.holding.get? ·) [0xFFFD, 0xFFFE, 0xFFFF]) = [some 1, some 2, some 7] := by
  intro done
  have writes : ∀ group ∈ smallBatch.groups, FunctionCode.isWrite group.1.function = true :=
    List.forall_mem_cons.mpr ⟨rfl, List.forall_mem_singleton.mpr rfl⟩
  obtain ⟨effect, succeeds⟩ :=
    writeBatch_applies_commands smallBatch writes { maxWriteRegisters := 2 } (c := smallDevice) ⟨rfl, rfl⟩
  have coil : smallDevice.link.device.memory.coils.Maps 3 1 := by decide
  have fits : ∀ group ∈ smallBatch.groups, ∀ command ∈ group.2.toList,
      command.Fits group.1.function smallDevice.link.device.memory := by
    refine List.forall_mem_cons.mpr ⟨List.forall_mem_singleton.mpr ?_, List.forall_mem_singleton.mpr
      (List.forall_mem_cons.mpr ⟨?_, List.forall_mem_singleton.mpr ?_⟩)⟩
    · exact coil
    · exact ⟨.uint16, DataType.ofTag?_name .uint16, by decide⟩
    · exact ⟨.uint32, DataType.ofTag?_name .uint32, by decide⟩
  have ok := succeeds (by decide) fits
  refine ⟨ok, ?_, ?_⟩
  · rw [effect ok]
    decide +kernel
  · rw [effect ok]
    decide +kernel

end Client

end Modbus
