import Modbus.Proofs.Interrupted

/-! What a batch of registers leaves of each command when it stops: all of its registers or none, unless a request ended
within them. Commands apart from each other are not mixed up, so one of them at most is cut. -/
namespace Modbus

namespace Command

/-- The first `count` registers of the command are stored, and its others are as they were. -/
def Stored (c : Command) (m m' : Memory) (count : Nat) : Prop :=
  ∀ i < c.words.length, m'.holding.cell? (c.address.toNat + i) =
    if i < count then c.words[i]? else m.holding.cell? (c.address.toNat + i)

/-- All of its registers are stored, or none is. -/
def Whole (c : Command) (m m' : Memory) : Prop := c.Stored m m' 0 ∨ c.Stored m m' c.words.length

end Command

namespace Interrupted

variable {cut : Command → Nat → Prop} {m m' : Memory} {commands before : List Command}

theorem stored_of_mem (inside : ∀ c ∈ before, c.Inside) (apart : before.Pairwise Command.Apart) {c : Command}
    (member : c ∈ before) : c.Stored m (m.storeAll before) c.words.length := by
  intro i hi
  rw [if_pos hi]
  exact m.cell?_storeAll_of_mem inside apart member hi

theorem untouched (inside : ∀ c ∈ before, c.Inside) {c : Command} (apart : ∀ d ∈ before, d.Apart c) {i : Nat}
    (hi : i < c.words.length) :
    (m.storeAll before).holding.cell? (c.address.toNat + i) = m.holding.cell? (c.address.toNat + i) :=
  m.cell?_storeAll_of_uncovered inside fun d member => (apart d member).register?_eq_none hi

/-- A part of a command changes nothing of the commands apart from it. -/
theorem cell?_part_of_apart {c d : Command} (fits : c.Inside) (apart : c.Apart d) {i : Nat} (hi : i < d.words.length)
    (count : Nat) (m : Memory) :
    ((Assignment.registers c.address (c.words.take count)).apply m).holding.cell? (d.address.toNat + i) =
      m.holding.cell? (d.address.toNat + i) := by
  have short : c.address.toNat + (c.words.take count).length ≤ 0x10000 := by
    rw [List.length_take]
    unfold Command.Inside at fits
    omega
  have uncovered := apart.register?_eq_none hi
  refine (m.holding.cell?_store short _).trans ?_
  unfold Command.register? at uncovered
  split
  case isTrue above =>
    rw [if_pos above] at uncovered
    rw [List.getElem?_eq_none, Option.none_or]
    have beyond := List.getElem?_eq_none_iff.mp uncovered
    rw [List.length_take]
    omega
  case isFalse => rfl

/-- The part of a command has the registers up to its end. -/
theorem cell?_part {c : Command} (fits : c.Inside) {i : Nat} (hi : i < c.words.length) (count : Nat) (m : Memory) :
    ((Assignment.registers c.address (c.words.take count)).apply m).holding.cell? (c.address.toNat + i) =
      if i < count then c.words[i]? else m.holding.cell? (c.address.toNat + i) := by
  have short : c.address.toNat + (c.words.take count).length ≤ 0x10000 := by
    rw [List.length_take]
    unfold Command.Inside at fits
    omega
  refine (m.holding.cell?_store short _).trans ?_
  rw [if_pos (Nat.le_add_right _ _), Nat.add_sub_cancel_left]
  split
  case isTrue stored => rw [List.getElem?_take_of_lt stored, List.getElem?_eq_getElem hi, Option.some_or]
  case isFalse not =>
    rw [List.getElem?_eq_none, Option.none_or]
    rw [List.length_take]
    omega

theorem pairwise_of_all_but_one {α : Type} {P : α → Prop} {xs ys : List α} {z : α} (left : ∀ x ∈ xs, P x)
    (right : ∀ y ∈ ys, P y) : (xs ++ z :: ys).Pairwise fun a b => P a ∨ P b := by
  refine List.pairwise_append.mpr ⟨?_, List.pairwise_cons.mpr ⟨fun y held => .inr (right y held), ?_⟩, ?_⟩
  · exact List.pairwise_of_forall_mem_list fun x held _ _ => .inl (left x held)
  · exact List.pairwise_of_forall_mem_list fun y held _ _ => .inl (right y held)
  · intro x held _ _
    exact .inl (left x held)

/-- Commands that cover no common register are whole after an interruption, all of them but one at most. -/
theorem whole_or_cut (apart : commands.Pairwise Command.Apart) (h : Interrupted cut m commands m') :
    (∀ c ∈ commands, c.Whole m m' ∨
        ∃ count, (0 < count ∧ count < c.words.length) ∧ c.Stored m m' count ∧ cut c count) ∧
      commands.Pairwise fun a b => a.Whole m m' ∨ b.Whole m m' := by
  cases h with
  | @between before after inside =>
    obtain ⟨early, -, across⟩ := List.pairwise_append.mp apart
    have whole : ∀ c ∈ before ++ after, c.Whole m (m.storeAll before) := by
      intro c member
      rcases List.mem_append.mp member with stored | not
      · exact .inr (stored_of_mem inside early stored)
      · refine .inl fun i hi => ?_
        rw [if_neg (Nat.not_lt_zero i)]
        exact untouched inside (fun d held => across d held c not) hi
    exact ⟨fun c member => .inl (whole c member),
      List.pairwise_of_forall_mem_list fun c member _ _ => .inl (whole c member)⟩
  | @within before after c count inside fits proper here =>
    obtain ⟨early, late, across⟩ := List.pairwise_append.mp apart
    obtain ⟨next, -⟩ := List.pairwise_cons.mp late
    let part := Assignment.registers c.address (c.words.take count)
    have first : ∀ d ∈ before, d.Whole m (part.apply (m.storeAll before)) := by
      intro d member
      refine .inr fun i hi => ?_
      rw [cell?_part_of_apart fits (across d member c List.mem_cons_self).symm hi]
      exact stored_of_mem inside early member i hi
    have last : ∀ d ∈ after, d.Whole m (part.apply (m.storeAll before)) := by
      intro d member
      refine .inl fun i hi => ?_
      rw [cell?_part_of_apart fits (next d member) hi, if_neg (Nat.not_lt_zero i)]
      exact untouched inside (fun e held => across e held d (List.mem_cons_of_mem _ member)) hi
    refine ⟨?_, pairwise_of_all_but_one first last⟩
    intro d member
    rcases List.mem_append.mp member with stored | member
    · exact .inl (first d stored)
    · rcases List.mem_cons.mp member with rfl | not
      · refine .inr ⟨count, proper, fun i hi => ?_, here⟩
        rw [cell?_part fits hi, untouched inside (fun e held => across e held d List.mem_cons_self) hi]
      · exact .inl (last d not)

end Interrupted

namespace Client

/-- Whatever the link and the outcome, a batch of commands apart from each other leaves each of them whole, but for one
at most that a request ended within. If the batch succeeds, all of them are stored. -/
theorem writeBatch_whole_or_cut (batch : Batch)
    (registers : ∀ group ∈ batch.groups, group.1.function = 0x06 ∨ group.1.function = 0x10)
    (apart : batch.all.Pairwise Command.Apart) (limits : Limits) (c : Client DirectLink) :
    let m := c.link.device.memory
    let done := c.perform (writeBatch batch limits)
    let m' := done.2.link.device.memory
    (∀ command ∈ batch.all, command.Whole m m' ∨
        ∃ count, (0 < count ∧ count < command.words.length) ∧ command.Stored m m' count ∧
          ∃ group ∈ batch.groups, Batch.EndsWithin limits group.2.toList command count) ∧
      batch.all.Pairwise (fun a b => a.Whole m m' ∨ b.Whole m m') ∧
      (done.1 = .ok () → ∀ command ∈ batch.all, command.Stored m m' command.words.length) := by
  intro m done m'
  have order := batch.written_perm
  have apart : (Batch.written batch.groups).Pairwise Command.Apart := order.symm.pairwise apart Command.Apart.symm
  have carries := Batch.carries_ofGroups limits registers
  obtain ⟨after, ok⟩ := perform_writeBatch batch limits c
  obtain ⟨k, -, memory, inside, whole⟩ := exists_memory_writeInTurn limits.delayMs (batch.plan limits).writes
    (fun _ => Batch.admissible_writes) false c
  rw [← after] at memory
  have stopped := carries.partly k m inside
  obtain ⟨each, others⟩ := Interrupted.whole_or_cut apart (memory ▸ stopped : Interrupted _ m _ m')
  refine ⟨?_, order.pairwise others Or.symm, ?_⟩
  · intro command member
    exact each command (order.mem_iff.mpr member)
  · intro succeeded command member
    obtain ⟨complete, issued, written⟩ := ok.mp succeeded
    rw [whole issued written, List.take_length] at memory inside
    obtain ⟨fits, stored⟩ := carries.wholly complete inside
    have same : m' = m.storeAll (Batch.written batch.groups) := memory.trans (stored m)
    rw [same]
    exact Interrupted.stored_of_mem fits apart (order.mem_iff.mpr member)

/-- A client of a device with four registers. -/
def fourRegisters : Client DirectLink :=
  { link := { device := { holding := (((Device.Table.empty.set 0 0).set 1 0).set 2 0).set 3 0 } } }

/-- Five registers in a row, by three commands. -/
def wideRow : Batch :=
  { groups := [
      (⟨1, 0x10⟩, #[
        { slave := 1, function := 0x10, address := 0, value := .u32 0x00010002, tag := "uint32" },
        { slave := 1, function := 0x10, address := 2, value := .u32 0x00030004, tag := "uint32" },
        { slave := 1, function := 0x10, address := 4, value := .u16 5, tag := "uint16" }])] }

theorem apart_wideRow : wideRow.all.Pairwise Command.Apart := by
  refine .cons (List.forall_mem_cons.mpr ⟨?_, List.forall_mem_singleton.mpr ?_⟩)
    (.cons (List.forall_mem_singleton.mpr ?_) (.cons nofun .nil))
  · exact Command.apart_of_le (by decide +kernel)
  · exact Command.apart_of_le (by decide +kernel)
  · exact Command.apart_of_le (by decide +kernel)

/-- The row is written in two requests, of which the first ends within the second command. -/
theorem writes_wideRow :
    (wideRow.plan { maxWriteRegisters := 3 }).writes = [(1, .registers 0 [1, 2, 3]), (1, .registers 3 [4, 5])] := by
  have sorted : Batch.byAddress wideRow.all = wideRow.all := List.mergeSort_of_pairwise (by decide +kernel)
  have whole : Client.coalescable wideRow.all = true := by
    rw [coalescable, Batch.areConsecutive, sorted]
    decide +kernel
  have words : encodeAll wideRow.all = .ok [1, 2, 3, 4, 5] := rfl
  have pieces : Assignment.pieces 3 0 [1, 2, 3, 4, 5] = [.registers 0 [1, 2, 3], .registers 3 [4, 5]] := by
    rw [Assignment.pieces, Assignment.pieces, Assignment.pieces]
    rfl
  have planned : wideRow.plan { maxWriteRegisters := 3 } =
      (Batch.Plan.registers { maxWriteRegisters := 3 } 1 wideRow.all).append {} := rfl
  rw [planned, Batch.Plan.registers, if_pos whole, Batch.Plan.coalesced]
  dsimp only
  rw [sorted, words]
  change (Batch.Plan.ofWrites 1 (Assignment.pieces 3 0 [1, 2, 3, 4, 5])).writes ++ [] = _
  rw [pieces]
  rfl

theorem memory_wideRow :
    [0, 1, 2, 3, 4].map (fourRegisters.perform
      (writeBatch wideRow { maxWriteRegisters := 3 })).2.link.device.memory.holding.cell? =
        [some 1, some 2, some 3, some 0, none] := by
  rw [(perform_writeBatch wideRow { maxWriteRegisters := 3 } fourRegisters).1, writes_wideRow]
  decide +kernel

/-- The fifth register is missing, so the second request is refused, and the second command is cut. -/
theorem writeBatch_whole_or_cut_wideRow :
    let m := fourRegisters.link.device.memory
    let m' := (fourRegisters.perform (writeBatch wideRow { maxWriteRegisters := 3 })).2.link.device.memory
    (∀ command ∈ wideRow.all, command.Whole m m' ∨
        ∃ count, (0 < count ∧ count < command.words.length) ∧ command.Stored m m' count) ∧
      [0, 1, 2, 3, 4].map m'.holding.cell? = [some 1, some 2, some 3, some 0, none] := by
  intro m m'
  have registers : ∀ group ∈ wideRow.groups, group.1.function = 0x06 ∨ group.1.function = 0x10 :=
    List.forall_mem_singleton.mpr (.inr rfl)
  obtain ⟨each, -, -⟩ :=
    writeBatch_whole_or_cut wideRow registers apart_wideRow { maxWriteRegisters := 3 } fourRegisters
  refine ⟨?_, memory_wideRow⟩
  intro command member
  exact (each command member).imp_right fun ⟨count, proper, stored, _⟩ => ⟨count, proper, stored⟩

/-- Of the two registers of the second command the first is stored and the other is not. -/
theorem half_written :
    (∀ group ∈ wideRow.groups, group.1.function = 0x06 ∨ group.1.function = 0x10) ∧
      wideRow.all.Pairwise Command.Apart ∧
      ∃ command ∈ wideRow.all, ¬ command.Whole fourRegisters.link.device.memory
        (fourRegisters.perform (writeBatch wideRow { maxWriteRegisters := 3 })).2.link.device.memory := by
  refine ⟨List.forall_mem_singleton.mpr (.inr rfl), apart_wideRow, _, List.mem_cons_of_mem _ List.mem_cons_self, ?_⟩
  have cells := memory_wideRow
  simp only [List.map_cons, List.map_nil, List.cons.injEq] at cells
  obtain ⟨-, -, third, fourth, -⟩ := cells
  rintro (none | all)
  · have old := none 0 (by decide +kernel)
    rw [if_neg (Nat.lt_irrefl 0)] at old
    exact absurd (third.symm.trans old) (by decide +kernel)
  · have new := all 1 (by decide +kernel)
    rw [if_pos (by decide +kernel)] at new
    exact absurd (fourth.symm.trans new) (by decide +kernel)

end Client

end Modbus
