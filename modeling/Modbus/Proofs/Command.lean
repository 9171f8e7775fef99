import Modbus.Batch
import Modbus.Proofs.Layout
import Modbus.Proofs.Memory

/-! What commands do to memory, one by one. Commands without gap or overlap between them can be taken in any
order, and together they are one store of all their registers. -/
namespace Modbus

namespace Command

/-- The registers that the command writes; none if they cannot be encoded. -/
def words (c : Command) : List UInt16 :=
  match c.encode with
  | .ok words => words
  | .error _ => []

theorem encode_of_tag {c : Command} {t : DataType} (known : DataType.ofTag? c.tag = some t) :
    c.encode = .ok c.words ∧ c.words.length = t.width := by
  obtain ⟨words, encoded, size⟩ := c.value.encodeAs_of_tag known c.order
  have same : c.encode = .ok words := encoded
  unfold Command.words
  rw [same]
  exact ⟨rfl, size⟩

/-- A command under a coil function sets its coil if its value is not zero, one under a register function stores its
registers. -/
def apply (function : UInt8) (m : Memory) (c : Command) : Memory :=
  match FunctionCode.ofByte? function with
  | some .writeSingleCoil | some .writeMultipleCoils => (Assignment.coil c.address !c.value.isZero).apply m
  | some .writeSingleRegister | some .writeMultipleRegisters => (Assignment.registers c.address c.words).apply m
  | _ => m

/-- The command has a known type and touches mapped cells only. -/
def Fits (function : UInt8) (m : Memory) (c : Command) : Prop :=
  match FunctionCode.ofByte? function with
  | some .writeSingleCoil | some .writeMultipleCoils => m.coils.Maps c.address.toNat 1
  | some .writeSingleRegister | some .writeMultipleRegisters =>
    ∃ t, DataType.ofTag? c.tag = some t ∧ m.holding.Maps c.address.toNat t.width
  | _ => False

end Command

def Memory.applyAll (function : UInt8) (m : Memory) (commands : List Command) : Memory :=
  commands.foldl (Command.apply function) m

structure Memory.Within (m m' : Memory) : Prop where
  coils : ∀ {start count}, m.coils.Maps start count → m'.coils.Maps start count
  holding : ∀ {start count}, m.holding.Maps start count → m'.holding.Maps start count

namespace Memory

theorem Within.refl (m : Memory) : Within m m := ⟨id, id⟩

theorem Within.trans {a b c : Memory} (first : Within a b) (rest : Within b c) : Within a c :=
  ⟨fun h => rest.coils (first.coils h), fun h => rest.holding (first.holding h)⟩

theorem within_apply (s : Assignment) (m : Memory) : Within m (s.apply m) := by
  cases s with
  | coil address value => exact ⟨fun h => Device.Table.maps_store h _ _, id⟩
  | coils address values => exact ⟨fun h => Device.Table.maps_store h _ _, id⟩
  | register address value => exact ⟨id, fun h => Device.Table.maps_store h _ _⟩
  | registers address values => exact ⟨id, fun h => Device.Table.maps_store h _ _⟩

theorem within_applyAll (function : UInt8) (m : Memory) (commands : List Command) :
    Within m (m.applyAll function commands) := by
  induction commands generalizing m with
  | nil => exact .refl m
  | cons c rest ih =>
    refine Within.trans ?_ (ih (c.apply function m))
    unfold Command.apply
    split
    · exact within_apply _ m
    · exact within_apply _ m
    · exact within_apply _ m
    · exact within_apply _ m
    · exact .refl m

end Memory

theorem Command.Fits.within {function : UInt8} {m m' : Memory} {c : Command} (h : c.Fits function m)
    (within : m.Within m') : c.Fits function m' := by
  unfold Fits at h ⊢
  split at h
  · exact within.coils h
  · exact within.coils h
  · exact h.imp fun _ known => ⟨known.1, within.holding known.2⟩
  · exact h.imp fun _ known => ⟨known.1, within.holding known.2⟩
  · exact h.elim

/-! Commands in a row. -/

namespace Batch

variable {start : Nat} {commands : List Command}

def registers (commands : List Command) : List UInt16 := commands.flatMap Command.words

/-- The commands lie in a row between the first address and the end of their registers. -/
theorem bounds_of_contiguousFrom (row : contiguousFrom start commands = true)
    (sizes : ∀ c ∈ commands, c.words.length = c.span) {c : Command} (member : c ∈ commands) :
    start ≤ c.address.toNat ∧ c.address.toNat + c.words.length ≤ start + (registers commands).length := by
  induction commands generalizing start with
  | nil => nomatch member
  | cons first rest ih =>
    obtain ⟨here, row⟩ := contiguousFrom_cons.mp row
    obtain ⟨size, sizes⟩ := List.forall_mem_cons.mp sizes
    have whole : (registers (first :: rest)).length = first.words.length + (registers rest).length :=
      List.length_append
    rcases List.mem_cons.mp member with rfl | later
    · omega
    · have := ih row sizes later
      omega

/-- Two commands of a row are one and the same, or one ends before the other begins. -/
theorem apart_of_contiguousFrom (row : contiguousFrom start commands = true)
    (sizes : ∀ c ∈ commands, c.words.length = c.span) {a b : Command} (left : a ∈ commands) (right : b ∈ commands) :
    a = b ∨ a.address.toNat + a.words.length ≤ b.address.toNat ∨
      b.address.toNat + b.words.length ≤ a.address.toNat := by
  induction commands generalizing start with
  | nil => nomatch left
  | cons first rest ih =>
    obtain ⟨here, row⟩ := contiguousFrom_cons.mp row
    obtain ⟨size, tail⟩ := List.forall_mem_cons.mp sizes
    rcases List.mem_cons.mp left with rfl | early
    · rcases List.mem_cons.mp right with rfl | late
      · exact .inl rfl
      · have := (bounds_of_contiguousFrom row tail late).1
        exact .inr (.inl (by omega))
    · rcases List.mem_cons.mp right with rfl | late
      · have := (bounds_of_contiguousFrom row tail early).1
        exact .inr (.inr (by omega))
      · exact ih row tail early late

/-- A row is stored as a whole. -/
theorem foldl_apply_of_contiguousFrom (row : contiguousFrom start commands = true)
    (sizes : ∀ c ∈ commands, c.words.length = c.span) (m : Memory) :
    commands.foldl (fun m c => (Assignment.registers c.address c.words).apply m) m =
      (Assignment.registers (.ofNat start) (registers commands)).apply m := by
  induction commands generalizing start m with
  | nil => rfl
  | cons first rest ih =>
    obtain ⟨here, row⟩ := contiguousFrom_cons.mp row
    obtain ⟨size, sizes⟩ := List.forall_mem_cons.mp sizes
    have address : UInt16.ofNat start = first.address := by rw [← here, UInt16.ofNat_toNat]
    rw [List.foldl_cons, ih row sizes, ← size, UInt16.ofNat_add, address]
    exact congrArg (fun holding => { m with holding })
      (m.holding.store_append first.address first.words (registers rest)).symm

/-- So is a row that is given in another order, if it does not run past the last address. -/
theorem foldl_apply_of_perm {sorted : List Command} (order : sorted.Perm commands)
    (row : contiguousFrom start sorted = true) (sizes : ∀ c ∈ commands, c.words.length = c.span)
    (inside : start + (registers sorted).length ≤ 0x10000) (m : Memory) :
    commands.foldl (fun m c => (Assignment.registers c.address c.words).apply m) m =
      (Assignment.registers (.ofNat start) (registers sorted)).apply m := by
  have sizes : ∀ c ∈ sorted, c.words.length = c.span := by
    intro c member
    exact sizes c (order.mem_iff.mp member)
  rw [← foldl_apply_of_contiguousFrom row sizes m]
  refine (order.foldl_eq' ?_ m).symm
  intro a left b right m
  rcases apart_of_contiguousFrom row sizes left right with rfl | apart
  · rfl
  · have first := (bounds_of_contiguousFrom row sizes left).2
    have second := (bounds_of_contiguousFrom row sizes right).2
    exact congrArg (fun holding => { m with holding })
      (m.holding.store_comm (by omega) (by omega) apart)

theorem maps_of_contiguousFrom (row : contiguousFrom start commands = true)
    (sizes : ∀ c ∈ commands, c.words.length = c.span) {t : Device.Table UInt16}
    (mapped : ∀ c ∈ commands, t.Maps c.address.toNat c.words.length) : t.Maps start (registers commands).length := by
  induction commands generalizing start with
  | nil => exact t.maps_zero start
  | cons first rest ih =>
    obtain ⟨here, row⟩ := contiguousFrom_cons.mp row
    obtain ⟨size, sizes⟩ := List.forall_mem_cons.mp sizes
    obtain ⟨front, mapped⟩ := List.forall_mem_cons.mp mapped
    have back := ih row sizes mapped
    have whole : (registers (first :: rest)).length = first.words.length + (registers rest).length :=
      List.length_append
    rw [whole, Device.Table.maps_add]
    rw [here] at front
    rw [← size] at back
    exact ⟨front, back⟩

end Batch

end Modbus
