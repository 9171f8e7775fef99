import Modbus.Proofs.BatchWrite
import Modbus.Proofs.Grouping
import Modbus.Proofs.Overlay

/-! The order in which writes were enqueued, and what a batch makes of it. Among commands of one function code the last
one enqueued prevails; between two codes for the same kind of cell it is the higher code that prevails, whatever came
last. -/
namespace Modbus

namespace Command

/-- The register that the command leaves at an address, if it writes one there. -/
def writesRegister? (c : Command) (address : Nat) : Option UInt16 :=
  match FunctionCode.ofByte? c.function with
  | some .writeSingleRegister | some .writeMultipleRegisters => c.register? address
  | _ => none

/-- The coil that the command leaves at an address, if it writes one there. -/
def writesCoil? (c : Command) (address : Nat) : Option Bool :=
  match FunctionCode.ofByte? c.function with
  | some .writeSingleCoil | some .writeMultipleCoils => c.coil? address
  | _ => none

theorem function_of_writesRegister? {c : Command} {address : Nat} (some : c.writesRegister? address ≠ none) :
    c.function = 0x06 ∨ c.function = 0x10 := by
  unfold writesRegister? at some
  split at some
  case h_1 code => exact .inl (FunctionCode.ofByte?_eq_some_iff.mp code)
  case h_2 code => exact .inr (FunctionCode.ofByte?_eq_some_iff.mp code)
  case h_3 => exact absurd rfl some

theorem function_of_writesCoil? {c : Command} {address : Nat} (some : c.writesCoil? address ≠ none) :
    c.function = 0x05 ∨ c.function = 0x0F := by
  unfold writesCoil? at some
  split at some
  case h_1 code => exact .inl (FunctionCode.ofByte?_eq_some_iff.mp code)
  case h_2 code => exact .inr (FunctionCode.ofByte?_eq_some_iff.mp code)
  case h_3 => exact absurd rfl some

theorem inside_of_fits {c : Command} {m : Memory} (fits : c.Fits c.function m)
    (register : c.function = 0x06 ∨ c.function = 0x10) :
    c.Inside := by
  have typed : ∃ t, DataType.ofTag? c.tag = some t ∧ m.holding.Maps c.address.toNat t.width := by
    unfold Fits at fits
    rcases register with single | multiple
    · rw [single] at fits
      exact fits
    · rw [multiple] at fits
      exact fits
  obtain ⟨t, known, mapped⟩ := typed
  rw [Inside, (encode_of_tag known).2]
  exact mapped.inside (Nat.lt_of_lt_of_le Nat.one_pos (Nat.le_max_right _ _))

theorem register_apply {c : Command} (inside : c.function = 0x06 ∨ c.function = 0x10 → c.Inside) (m : Memory)
    (address : Nat) :
    (c.apply c.function m).holding.cell? address = (c.writesRegister? address).or (m.holding.cell? address) := by
  unfold apply writesRegister?
  cases code : FunctionCode.ofByte? c.function with
  | none => rfl
  | some f =>
    have byte := FunctionCode.ofByte?_eq_some_iff.mp code
    cases f with
    | writeSingleRegister => exact m.holding.cell?_store (inside (.inl byte)) address
    | writeMultipleRegisters => exact m.holding.cell?_store (inside (.inr byte)) address
    | _ => rfl

theorem coil_apply (c : Command) (m : Memory) (address : Nat) :
    (c.apply c.function m).coils.cell? address = (c.writesCoil? address).or (m.coils.cell? address) := by
  have small := c.address.toNat_lt
  have stored : (m.coils.store c.address [!c.value.isZero]).cell? address =
      (c.coil? address).or (m.coils.cell? address) := by
    rw [m.coils.cell?_store (by rw [List.length_singleton]; omega), coil?]
    by_cases here : c.address.toNat = address
    · rw [if_pos here, if_pos (Nat.le_of_eq here), here, Nat.sub_self]
      rfl
    · rw [if_neg here]
      split
      · rw [List.getElem?_eq_none (by rw [List.length_singleton]; omega)]
      · rfl
  unfold apply writesCoil?
  cases FunctionCode.ofByte? c.function with
  | none => rfl
  | some f =>
    cases f with
    | writeSingleCoil | writeMultipleCoils => exact stored
    | _ => rfl

end Command

namespace Memory

/-- The commands performed at once, one after another. -/
def performAll (m : Memory) (commands : List Command) : Memory := commands.foldl (fun m c => c.apply c.function m) m

theorem register_performAll (m : Memory) {commands : List Command}
    (inside : ∀ c ∈ commands, c.function = 0x06 ∨ c.function = 0x10 → c.Inside) (address : Nat) :
    (m.performAll commands).holding.cell? address =
      ((commands.filterMap (·.writesRegister? address)).getLast?).or (m.holding.cell? address) :=
  foldl_last_write (fun (m : Memory) (c : Command) => c.apply c.function m) (fun m => m.holding.cell? address)
    (·.writesRegister? address) (fun _ member m => Command.register_apply (inside _ member) m address) m

theorem coil_performAll (m : Memory) (commands : List Command) (address : Nat) :
    (m.performAll commands).coils.cell? address =
      ((commands.filterMap (·.writesCoil? address)).getLast?).or (m.coils.cell? address) :=
  foldl_last_write (fun (m : Memory) (c : Command) => c.apply c.function m) (fun m => m.coils.cell? address)
    (·.writesCoil? address) (fun c _ m => c.coil_apply m address) m

end Memory

namespace Batch

theorem Grouped.apply_eq {groups : List (Key × Array Command)} (h : Grouped groups) (m : Memory) :
    Batch.apply m groups = m.performAll (flatten groups) := by
  induction groups generalizing m with
  | nil => rfl
  | cons group rest ih =>
    have own : m.applyAll group.1.function group.2.toList = m.performAll group.2.toList := by
      refine List.foldl_rel (r := Eq) rfl ?_
      rintro c member m _ rfl
      exact congrArg (Command.apply · m c) (congrArg Key.function (h.own _ List.mem_cons_self c member)).symm
    rw [flatten_cons, Memory.performAll, List.foldl_append]
    exact (ih h.tail _).trans (congrArg (Memory.performAll · (flatten rest)) own)

end Batch

/-! The last write of each code. -/

namespace Command

variable {α : Type} {written? : Command → Option α} {low high : UInt8} {commands : List Command}

/-- What the last of the commands with one function code has written, if any of them has written. -/
def lastUnder (function : UInt8) (written? : Command → Option α) (commands : List Command) : Option α :=
  ((commands.filter (·.function == function)).filterMap written?).getLast?

theorem filter_append_filter {p : Command → Bool} (sorted : commands.Pairwise fun a b => p a = true → p b = true) :
    commands = commands.filter (fun c => !p c) ++ commands.filter p := by
  induction commands with
  | nil => rfl
  | cons c rest ih =>
    obtain ⟨later, sorted⟩ := List.pairwise_cons.mp sorted
    cases here : p c with
    | false =>
      rw [List.filter_cons_of_pos (by simp [here]), List.filter_cons_of_neg (by simp [here]), List.cons_append,
        ← ih sorted]
    | true =>
      have all : ∀ d ∈ c :: rest, p d = true :=
        List.forall_mem_cons.mpr ⟨here, fun d member => later d member here⟩
      rw [List.filter_eq_self.mpr all, List.filter_eq_nil_iff.mpr fun d member => by simp [all d member],
        List.nil_append]

/-- If commands that write come in the order of their codes, the last of them is the last of the higher code, or of the
lower one if there is none. -/
theorem getLast?_of_sorted (kinds : ∀ c, written? c ≠ none → c.function = low ∨ c.function = high) (less : low < high)
    (sorted : (commands.filter fun c => (written? c).isSome).Pairwise fun a b => a.function ≤ b.function) :
    (commands.filterMap written?).getLast? =
      (lastUnder high written? commands).or (lastUnder low written? commands) := by
  have writers : commands.filterMap written? = (commands.filter fun c => (written? c).isSome).filterMap written? := by
    rw [List.filterMap_filter]
    congr 1
    funext c
    cases written? c <;> rfl
  have split := filter_append_filter (p := fun c => c.function == high)
    (sorted.imp_of_mem fun {a b} _ right order top => by
      have top : a.function = high := beq_iff_eq.mp top
      obtain ⟨-, some⟩ := List.mem_filter.mp right
      rcases kinds b (Option.isSome_iff_ne_none.mp some) with bottom | same
      · rw [top, bottom] at order
        exact absurd less (UInt8.not_lt.mpr order)
      · exact beq_iff_eq.mpr same)
  have upper : ((commands.filter fun c => (written? c).isSome).filter fun c => c.function == high).filterMap written? =
      (commands.filter fun c => c.function == high).filterMap written? := by
    simp only [List.filterMap_filter]
    congr 1
    funext c
    cases written? c <;> simp
  have lower :
      ((commands.filter fun c => (written? c).isSome).filter fun c => !(c.function == high)).filterMap written? =
        (commands.filter fun c => c.function == low).filterMap written? := by
    simp only [List.filterMap_filter]
    congr 1
    funext c
    cases wrote : written? c with
    | none => simp
    | some v =>
      rcases kinds c (by simp [wrote]) with bottom | top
      · simp [bottom, UInt8.ne_of_lt less]
      · simp [top, (UInt8.ne_of_lt less).symm]
  rw [writers, split, List.filterMap_append, List.getLast?_append, upper, lower]
  rfl

end Command

namespace Batch.StableSort

variable {α : Type} {sorted commands : List Command} {slave : UInt8}

/-- A stable sort of commands for one slave does not show in the last write of a function code. -/
theorem lastUnder_eq (h : StableSort sorted commands) (one : ∀ c ∈ commands, c.slave = slave) (function : UInt8)
    (written? : Command → Option α) :
    Command.lastUnder function written? sorted = Command.lastUnder function written? commands := by
  have byFunction {l : List Command} (one : ∀ c ∈ l, c.slave = slave) :
      l.filter (·.function == function) = ofKey ⟨slave, function⟩ l := by
    refine List.filter_congr fun c held => ?_
    rw [Bool.eq_iff_iff, beq_iff_eq, decide_eq_true_eq, Command.key, one c held, Key.mk.injEq]
    exact (and_iff_right rfl).symm
  have both : ∀ c ∈ sorted, c.slave = slave := fun c held => one c ((h.mem_iff c).mp held)
  rw [Command.lastUnder, Command.lastUnder, byFunction both, byFunction one, h.same]

theorem functions_sorted (h : StableSort sorted commands) (one : ∀ c ∈ commands, c.slave = slave) :
    sorted.Pairwise fun a b => a.function ≤ b.function := by
  refine h.order.imp_of_mem fun {a b} left right order => ?_
  have slaves : a.slave = b.slave := by rw [one a ((h.mem_iff a).mp left), one b ((h.mem_iff b).mp right)]
  rcases order with same | sooner
  · exact UInt8.le_iff_toNat_le.mpr (Nat.le_of_eq ((Key.eq_iff _ _).mp same).2)
  · rcases (Key.before_iff _ _).mp sooner with slave | ⟨-, function⟩
    · exact absurd (congrArg UInt8.toNat slaves) (Nat.ne_of_lt slave)
    · exact UInt8.le_iff_toNat_le.mpr (Nat.le_of_lt function)

end Batch.StableSort

namespace Client

/-- Commands for one slave that fit are enqueued, released and executed over a ready link. If that succeeds, a cell has
the value of the last command enqueued under the higher code for its kind, else of the last one under the lower code,
else its old value. So it is as if every write had been performed at once, if the writes to this cell came in the order
of their codes. -/
theorem writeBatch_enqueued {b : Batcher} (fresh : b.pending = .empty) {slave : UInt8} {commands : List Command}
    (one : ∀ command ∈ commands, command.slave = slave) {c : Client DirectLink} (ready : c.link.Ready)
    (fits : ∀ command ∈ commands, command.Fits command.function c.link.device.memory) (limits : Limits) (now : Int64) :
    let m := c.link.device.memory
    let done := c.perform (writeBatch ((commands.foldl Batcher.enqueue b).release now).1 limits)
    let m' := done.2.link.device.memory
    done.1 = .ok () → ∀ address,
      m'.coils.cell? address =
          ((Command.lastUnder 0x0F (·.writesCoil? address) commands).or
            (Command.lastUnder 0x05 (·.writesCoil? address) commands)).or (m.coils.cell? address) ∧
        m'.holding.cell? address =
          ((Command.lastUnder 0x10 (·.writesRegister? address) commands).or
            (Command.lastUnder 0x06 (·.writesRegister? address) commands)).or (m.holding.cell? address) ∧
        ((commands.filter fun d => (d.writesCoil? address).isSome).Pairwise (fun d e => d.function ≤ e.function) →
          m'.coils.cell? address = (m.performAll commands).coils.cell? address) ∧
        ((commands.filter fun d => (d.writesRegister? address).isSome).Pairwise (fun d e => d.function ≤ e.function) →
          m'.holding.cell? address = (m.performAll commands).holding.cell? address) := by
  intro m done m' ok address
  obtain ⟨grouped, stable⟩ := Batcher.stableSort_release fresh commands now
  have memory : m' = m.performAll (Batch.flatten ((commands.foldl Batcher.enqueue b).release now).1.groups) := by
    rw [← grouped.apply_eq]
    exact (writeGroups_stores limits _ false).effect c () ready ok
  have inside : ∀ d ∈ commands, d.function = 0x06 ∨ d.function = 0x10 → d.Inside :=
    fun d member => Command.inside_of_fits (fits d member)
  have codes := stable.functions_sorted one
  have coil : m'.coils.cell? address =
      ((Command.lastUnder 0x0F (·.writesCoil? address) commands).or
        (Command.lastUnder 0x05 (·.writesCoil? address) commands)).or (m.coils.cell? address) := by
    rw [memory, m.coil_performAll, Command.getLast?_of_sorted (fun d => d.function_of_writesCoil?) (by decide)
      (codes.filter _), stable.lastUnder_eq one, stable.lastUnder_eq one]
  have register : m'.holding.cell? address =
      ((Command.lastUnder 0x10 (·.writesRegister? address) commands).or
        (Command.lastUnder 0x06 (·.writesRegister? address) commands)).or (m.holding.cell? address) := by
    rw [memory, m.register_performAll fun d held => inside d ((stable.mem_iff d).mp held),
      Command.getLast?_of_sorted (fun d => d.function_of_writesRegister?) (by decide) (codes.filter _),
      stable.lastUnder_eq one, stable.lastUnder_eq one]
  refine ⟨coil, register, ?_, ?_⟩
  · intro order
    rw [coil, m.coil_performAll, Command.getLast?_of_sorted (fun d => d.function_of_writesCoil?) (by decide) order]
  · intro order
    rw [register, m.register_performAll inside,
      Command.getLast?_of_sorted (fun d => d.function_of_writesRegister?) (by decide) order]

/-- A client of a device with a register and a coil. -/
def oneOfEach : Client DirectLink :=
  { link := { device := { holding := Device.Table.empty.set 0 0, coils := Device.Table.empty.set 3 false } } }

/-- The register is written by a multiple write and then by a single one, the coil only once. -/
def multipleThenSingle : List Command :=
  [{ slave := 1, function := 0x10, address := 0, value := .u16 1 },
    { slave := 1, function := 0x06, address := 0, value := .u16 2 },
    { slave := 1, function := 0x05, address := 3, value := .bool true }]

/-- An outcome of the batch of these commands. -/
def multipleThenSingleDone : Except Error Unit × Client DirectLink :=
  oneOfEach.perform (writeBatch ((multipleThenSingle.foldl Batcher.enqueue (.start 20 100 0)).release 0).1 {})

/-- The single write comes first after all, and the multiple one prevails. -/
theorem writeBatch_multipleThenSingle :
    multipleThenSingleDone.1 = .ok () ∧
      multipleThenSingleDone.2.link.device.memory.coils.cell? 3 = some true ∧
      multipleThenSingleDone.2.link.device.memory.holding.cell? 0 = some 1 := by
  have one : ∀ command ∈ multipleThenSingle, command.slave = 1 := by decide
  have coil : oneOfEach.link.device.memory.coils.Maps (3 : UInt16).toNat 1 := by decide
  have fits : ∀ command ∈ multipleThenSingle, command.Fits command.function oneOfEach.link.device.memory := by
    refine List.forall_mem_cons.mpr ⟨?_, List.forall_mem_cons.mpr ⟨?_, List.forall_mem_singleton.mpr ?_⟩⟩
    · exact ⟨.uint16, DataType.ofTag?_name .uint16, by decide +kernel⟩
    · exact ⟨.uint16, DataType.ofTag?_name .uint16, by decide +kernel⟩
    · exact coil
  have ok : multipleThenSingleDone.1 = .ok () := Error.eq_ok_of_not_raised (by decide +kernel)
  have cells := writeBatch_enqueued (b := .start 20 100 0) rfl one (c := oneOfEach) ⟨rfl, rfl⟩ fits {} 0 ok
  unfold multipleThenSingleDone at ok ⊢
  refine ⟨ok, (cells 3).1.trans ?_, (cells 0).2.1.trans ?_⟩
  · decide +kernel
  · decide +kernel

/-- The last command enqueued for the register writes 2, and the register is left at 1. -/
theorem last_enqueued_overwritten :
    multipleThenSingleDone.1.isOk = true ∧
      (multipleThenSingle.filterMap (·.writesRegister? 0)).getLast? = some 2 ∧
      (oneOfEach.link.device.memory.performAll multipleThenSingle).holding.cell? 0 = some 2 ∧
      multipleThenSingleDone.2.link.device.memory.holding.cell? 0 = some 1 := by
  decide +kernel

end Client

end Modbus
