import Modbus.Proofs.Command

/-! Stores one after another. A cell ends with the value of the last store that covers it, and stores that cover no
common cell do not disturb each other. -/
namespace Modbus

/-- What one can see of a state that is only ever overwritten is the last thing written to it. -/
theorem foldl_last_write {σ α β : Type} (step : σ → β → σ) (seen : σ → Option α) (write : β → Option α) {xs : List β}
    (overwrites : ∀ x ∈ xs, ∀ s, seen (step s x) = (write x).or (seen s)) (s : σ) :
    seen (xs.foldl step s) = ((xs.filterMap write).getLast?).or (seen s) := by
  induction xs generalizing s with
  | nil => rfl
  | cons x rest ih =>
    obtain ⟨here, overwrites⟩ := List.forall_mem_cons.mp overwrites
    rw [List.foldl_cons, ih overwrites, here, ← Option.or_assoc, List.filterMap_cons]
    cases write x with
    | none => rw [Option.or_none]
    | some v => rw [List.getLast?_cons, Option.or_some]

theorem Device.Table.cell?_store {α : Type} (t : Table α) {start : UInt16} {values : List α}
    (inside : start.toNat + values.length ≤ 0x10000) (address : Nat) :
    (t.store start values).cell? address =
      (if start.toNat ≤ address then values[address - start.toNat]? else none).or (t.cell? address) := by
  by_cases small : address < 0x10000
  · have same : (UInt16.ofNat address).toNat = address := Word.toNat_ofNat (by omega)
    rw [cell?, cell?, if_pos small, if_pos small, get?_store t start values inside, same]
    by_cases above : start.toNat ≤ address
    · by_cases covered : address < start.toNat + values.length
      · rw [if_pos ⟨above, covered⟩, if_pos above, List.getElem?_eq_getElem (by omega), Option.some_or]
      · rw [if_neg (fun h => covered h.2), if_pos above, List.getElem?_eq_none (by omega), Option.none_or]
    · rw [if_neg (fun h => above h.1), if_neg above, Option.none_or]
  · rw [cell?, cell?, if_neg small, if_neg small, Option.or_none]
    split
    · rw [List.getElem?_eq_none (by omega)]
    · rfl

namespace Command

/-- The registers of the command do not run past the last address. -/
def Inside (c : Command) : Prop := c.address.toNat + c.words.length ≤ 0x10000

/-- What the command puts into the register at an address, if it covers it. -/
def register? (c : Command) (address : Nat) : Option UInt16 :=
  if c.address.toNat ≤ address then c.words[address - c.address.toNat]? else none

/-- What the command makes of the coil at an address, if it is about that one. -/
def coil? (c : Command) (address : Nat) : Option Bool :=
  if c.address.toNat = address then some !c.value.isZero else none

/-- The two cover no common register. -/
def Apart (a b : Command) : Prop := ∀ address, a.register? address = none ∨ b.register? address = none

theorem Apart.symm {a b : Command} (h : a.Apart b) : b.Apart a := fun address => (h address).symm

theorem apart_of_le {a b : Command} (before : a.address.toNat + a.words.length ≤ b.address.toNat) : a.Apart b := by
  intro address
  unfold register?
  by_cases above : b.address.toNat ≤ address
  · refine .inl ?_
    split
    · exact List.getElem?_eq_none (by omega)
    · rfl
  · exact .inr (if_neg above)

theorem register?_add (c : Command) (i : Nat) : c.register? (c.address.toNat + i) = c.words[i]? := by
  rw [register?, if_pos (Nat.le_add_right _ _), Nat.add_sub_cancel_left]

theorem Apart.register?_eq_none {a b : Command} (h : a.Apart b) {i : Nat} (hi : i < b.words.length) :
    a.register? (b.address.toNat + i) = none := by
  refine (h _).resolve_right ?_
  rw [register?_add, List.getElem?_eq_getElem hi]
  nofun

end Command

namespace Memory

/-- The registers of commands, stored in turn. -/
def storeAll (m : Memory) (commands : List Command) : Memory :=
  commands.foldl (fun m c => (Assignment.registers c.address c.words).apply m) m

theorem storeAll_append (m : Memory) (xs ys : List Command) : m.storeAll (xs ++ ys) = (m.storeAll xs).storeAll ys :=
  List.foldl_append

theorem cell?_storeAll (m : Memory) {commands : List Command} (inside : ∀ c ∈ commands, c.Inside) (address : Nat) :
    (m.storeAll commands).holding.cell? address =
      ((commands.filterMap (·.register? address)).getLast?).or (m.holding.cell? address) :=
  foldl_last_write (fun (m : Memory) (c : Command) => (Assignment.registers c.address c.words).apply m)
    (fun m => m.holding.cell? address) (·.register? address)
    (fun c member m => m.holding.cell?_store (inside c member) address) m

theorem cell?_storeAll_of_uncovered (m : Memory) {commands : List Command} (inside : ∀ c ∈ commands, c.Inside)
    {address : Nat} (uncovered : ∀ c ∈ commands, c.register? address = none) :
    (m.storeAll commands).holding.cell? address = m.holding.cell? address := by
  rw [m.cell?_storeAll inside, List.filterMap_eq_nil_iff.mpr uncovered]
  rfl

/-- Where nothing is covered twice, every command is there in the end. -/
theorem cell?_storeAll_of_mem (m : Memory) {commands : List Command} (inside : ∀ c ∈ commands, c.Inside)
    (apart : commands.Pairwise Command.Apart) {c : Command} (member : c ∈ commands) {i : Nat}
    (hi : i < c.words.length) : (m.storeAll commands).holding.cell? (c.address.toNat + i) = c.words[i]? := by
  obtain ⟨before, after, rfl⟩ := List.append_of_mem member
  have later : ∀ d ∈ after, d.register? (c.address.toNat + i) = none := by
    intro d held
    exact ((List.pairwise_cons.mp (List.pairwise_append.mp apart).2.1).1 d held).symm.register?_eq_none hi
  have row : (before ++ c :: after).filterMap (·.register? (c.address.toNat + i)) =
      before.filterMap (·.register? (c.address.toNat + i)) ++ [c.words[i]] := by
    rw [List.filterMap_append, List.filterMap_cons, c.register?_add, List.getElem?_eq_getElem hi,
      List.filterMap_eq_nil_iff.mpr later]
  rw [m.cell?_storeAll inside, row, List.getLast?_append, List.getElem?_eq_getElem hi]
  rfl

end Memory

end Modbus
