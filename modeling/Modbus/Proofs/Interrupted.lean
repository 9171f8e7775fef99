import Modbus.Proofs.BatchFault
import Modbus.Proofs.DirectMemory
import Modbus.Proofs.Overlay

/-! Batches of registers that stop anywhere. The first few planned writes are done and no other one, so the commands
are stored in turn up to some point. That point is within a command only if a request for a row ended there. -/
namespace Modbus

namespace Assignment

/-- The cells do not run past the last address. -/
def Inside (s : Assignment) : Prop := s.address.toNat + s.values.length ≤ 0x10000

theorem apply_ofWords (address : UInt16) (words : List UInt16) (m : Memory) :
    (ofWords address words).apply m = (registers address words).apply m := by
  match words with
  | [] | [_] | _ :: _ :: _ => rfl

theorem inside_ofWords {address : UInt16} {words : List UInt16} :
    (ofWords address words).Inside ↔ (registers address words).Inside := by
  match words with
  | [] | [_] | _ :: _ :: _ => exact Iff.rfl

theorem inside_of_mapped {s : Assignment} {m : Memory} (admissible : s.Admissible) (mapped : s.Mapped m) : s.Inside :=
  ((s.mapped_iff m).mp mapped).inside (s.admissible_iff.mp admissible).1

end Assignment

def Memory.writeAll (m : Memory) (writes : List (UInt8 × Assignment)) : Memory :=
  writes.foldl (fun m w => w.2.apply m) m

namespace Client

theorem device_paced (delay : Nat) (issued : Bool) (c : Client DirectLink) :
    (c.paced delay issued).link.device = c.link.device := by
  unfold paced
  split
  · unfold pause
    dsimp only
    split <;> rfl
  · rfl

/-- Whatever the link is like, a single write is done as a whole or not at all. -/
theorem perform_write_direct (c : Client DirectLink) (slave : UInt8) {s : Assignment} (admissible : s.Admissible) :
    let done := c.perform (s.write slave)
    (done.1 = .ok () ∧ s.Inside ∧ done.2.link.device.memory = s.apply c.link.device.memory) ∨
      ((∃ e, done.1 = .error e) ∧ done.2.link.device.memory = c.link.device.memory) := by
  by_cases ready : c.link.Ready
  · obtain ⟨outcome, reached⟩ := s.perform_write ready slave admissible
    have after := reached.memory
    by_cases mapped : s.Mapped c.link.device.memory
    · rw [if_pos mapped] at outcome after
      exact .inl ⟨outcome, Assignment.inside_of_mapped admissible mapped, after⟩
    · rw [if_neg mapped] at outcome after
      exact .inr ⟨⟨_, outcome⟩, after⟩
  · dsimp only
    rw [s.write_eq slave admissible, write_eq_ask]
    obtain ⟨outcome, link, -⟩ := perform_ask c (s.request slave) fun response =>
      Response.checkEcho response (s.request slave).function (s.request slave).address (s.request slave).echoedWord
    rw [outcome, link]
    refine .inr ⟨?_, congrArg Device.memory (DirectLink.device_send_of_not_ready ready _)⟩
    cases answered : (Link.send c.link (s.request slave)).1 with
    | error e => exact ⟨e, rfl⟩
    | ok response => exact absurd (DirectLink.ready_of_send_eq_ok answered) ready

/-- Writes in turn leave what the first few of them leave. -/
theorem exists_memory_writeInTurn (delay : Nat) (writes : List (UInt8 × Assignment))
    (admissible : ∀ w ∈ writes, w.2.Admissible) (issued : Bool) (c : Client DirectLink) :
    let done := c.perform (writeInTurn delay writes issued)
    ∃ k ≤ writes.length, done.2.link.device.memory = c.link.device.memory.writeAll (writes.take k) ∧
      (∀ w ∈ writes.take k, w.2.Inside) ∧ ∀ x, done.1 = .ok x → k = writes.length := by
  induction writes generalizing issued c with
  | nil => exact ⟨0, Nat.le_refl 0, rfl, nofun, fun _ _ => rfl⟩
  | cons w rest ih =>
    obtain ⟨slave, s⟩ := w
    obtain ⟨here, admissible⟩ := List.forall_mem_cons.mp admissible
    have single := perform_write_direct (c.paced delay issued) slave here
    rw [device_paced] at single
    dsimp only
    rw [writeInTurn, perform_bind_ok (perform_pace delay issued c)]
    rcases done : (c.paced delay issued).perform (s.write slave) with ⟨outcome, c'⟩
    rw [done] at single
    rcases single with ⟨rfl, inside, after⟩ | ⟨⟨e, rfl⟩, after⟩
    · rw [perform_bind_ok done]
      obtain ⟨k, few, later, all, whole⟩ := ih admissible true c'
      refine ⟨k + 1, Nat.succ_le_succ few, ?_, List.forall_mem_cons.mpr ⟨inside, all⟩,
        fun x ok => congrArg (· + 1) (whole x ok)⟩
      rw [later, after]
      rfl
    · rw [perform_bind_error done]
      refine ⟨0, Nat.zero_le _, after, List.forall_mem_nil _, ?_⟩
      intro x ok
      cases ok

end Client

/-! Stores that stop. -/

/-- The memory after commands were stored in turn up to some point, which is between two of them or, where `cut`
allows it, within one. -/
inductive Interrupted (cut : Command → Nat → Prop) (m : Memory) : List Command → Memory → Prop where
  | between {before after : List Command} (inside : ∀ c ∈ before, c.Inside) :
      Interrupted cut m (before ++ after) (m.storeAll before)
  | within {before after : List Command} {c : Command} {count : Nat} (inside : ∀ d ∈ before, d.Inside)
      (fits : c.Inside) (proper : 0 < count ∧ count < c.words.length) (here : cut c count) :
      Interrupted cut m (before ++ c :: after)
        ((Assignment.registers c.address (c.words.take count)).apply (m.storeAll before))

namespace Interrupted

variable {cut : Command → Nat → Prop} {m m' : Memory} {commands : List Command}

theorem nothing : Interrupted cut m commands m := @between cut m [] commands nofun

theorem head {c : Command} {count : Nat} (fits : c.Inside) (proper : 0 < count ∧ count < c.words.length)
    (here : cut c count) :
    Interrupted cut m (c :: commands) ((Assignment.registers c.address (c.words.take count)).apply m) :=
  @within cut m [] commands c count nofun fits proper here

theorem mono {cut' : Command → Nat → Prop} (weaker : ∀ c ∈ commands, ∀ count, cut c count → cut' c count)
    (h : Interrupted cut m commands m') : Interrupted cut' m commands m' := by
  cases h with
  | between inside => exact .between inside
  | within inside fits proper here =>
    exact .within inside fits proper (weaker _ (List.mem_append_right _ List.mem_cons_self) _ here)

theorem append (h : Interrupted cut m commands m') (more : List Command) : Interrupted cut m (commands ++ more) m' := by
  cases h with
  | between inside =>
    rw [List.append_assoc]
    exact .between inside
  | within inside fits proper here =>
    rw [List.append_assoc, List.cons_append]
    exact .within inside fits proper here

theorem prepend {first : List Command} (stored : ∀ c ∈ first, c.Inside)
    (h : Interrupted cut (m.storeAll first) commands m') : Interrupted cut m (first ++ commands) m' := by
  cases h with
  | between inside =>
    rw [← m.storeAll_append, ← List.append_assoc]
    exact .between (List.forall_mem_append.mpr ⟨stored, inside⟩)
  | within inside fits proper here =>
    rw [← m.storeAll_append, ← List.append_assoc]
    exact .within (List.forall_mem_append.mpr ⟨stored, inside⟩) fits proper here

end Interrupted

namespace Assignment

/-- The first pieces of a row, stored in turn, are the first registers of the row. -/
theorem foldl_apply_pieces {ceiling : Nat} (positive : 0 < ceiling) (k start : Nat) (words : List UInt16) (m : Memory) :
    ((pieces ceiling start words).take k).foldl (fun m s => s.apply m) m =
      (registers (.ofNat start) (words.take (k * ceiling))).apply m := by
  induction k generalizing start words m with
  | zero =>
    rw [Nat.zero_mul]
    rfl
  | succ k ih =>
    rw [pieces]
    by_cases more : 0 < words.length
    · have front : (words.take ((k + 1) * ceiling)).take ceiling = words.take ceiling := by
        rw [List.take_take, Nat.min_eq_left (Nat.le_mul_of_pos_left ceiling (Nat.succ_pos k))]
      have back : (words.take ((k + 1) * ceiling)).drop ceiling = (words.drop ceiling).take (k * ceiling) := by
        rw [List.drop_take, Nat.add_mul, Nat.one_mul, Nat.add_sub_cancel]
      have joined := m.holding.store_take_drop start ceiling (words.take ((k + 1) * ceiling))
      rw [front, back] at joined
      rw [if_pos ⟨positive, more⟩, List.take_succ_cons, List.foldl_cons, ih]
      exact congrArg (fun holding => { m with holding }) joined
    · obtain rfl : words = [] := List.eq_nil_of_length_eq_zero (by omega)
      rw [if_neg (fun h => more h.2), List.take_nil, List.take_nil]
      rfl

theorem length_le_pieces {ceiling : Nat} (positive : 0 < ceiling) (start : Nat) (words : List UInt16) :
    words.length ≤ (pieces ceiling start words).length * ceiling := by
  induction size : words.length using Nat.strongRecOn generalizing start words with
  | ind remaining ih =>
    subst size
    rw [pieces]
    by_cases more : 0 < words.length
    · have left : (words.drop ceiling).length = words.length - ceiling := List.length_drop
      have rest := ih _ (by omega) (start + ceiling) (words.drop ceiling) rfl
      rw [if_pos ⟨positive, more⟩, List.length_cons, Nat.add_mul]
      omega
    · omega

end Assignment

namespace Batch

variable {start : Nat} {commands : List Command}

/-- The first registers of a row are those of its first commands and a part of the next one. -/
theorem interrupted_of_contiguousFrom (row : contiguousFrom start commands = true)
    (sizes : ∀ c ∈ commands, c.words.length = c.span) (inside : ∀ c ∈ commands, c.Inside) (count : Nat) (m : Memory) :
    Interrupted (fun c n => c.address.toNat + n = start + count) m commands
      ((Assignment.registers (.ofNat start) ((registers commands).take count)).apply m) := by
  induction commands generalizing start count m with
  | nil =>
    rw [registers, List.flatMap_nil, List.take_nil]
    exact .nothing
  | cons first rest ih =>
    obtain ⟨here, row⟩ := contiguousFrom_cons.mp row
    obtain ⟨size, sizes⟩ := List.forall_mem_cons.mp sizes
    obtain ⟨fits, inside⟩ := List.forall_mem_cons.mp inside
    have address : UInt16.ofNat start = first.address := by rw [← here, UInt16.ofNat_toNat]
    have whole : registers (first :: rest) = first.words ++ registers rest := List.flatMap_cons
    rw [whole, address]
    by_cases reaches : first.words.length ≤ count
    · have joined := m.holding.store_append first.address first.words
        ((registers rest).take (count - first.words.length))
      rw [List.take_append, List.take_of_length_le reaches]
      have later := ih row sizes inside (count - first.words.length) (m.storeAll [first])
      rw [← size, UInt16.ofNat_add, address] at later
      rw [Nat.add_assoc, Nat.add_sub_of_le reaches] at later
      have after : (Assignment.registers first.address
            (first.words ++ (registers rest).take (count - first.words.length))).apply m =
          (Assignment.registers (first.address + .ofNat first.words.length)
            ((registers rest).take (count - first.words.length))).apply (m.storeAll [first]) :=
        congrArg (fun holding => { m with holding }) joined
      rw [after]
      exact later.prepend (List.forall_mem_singleton.mpr fits)
    · rw [List.take_append_of_le_length (by omega)]
      by_cases none : count = 0
      · subst none
        exact .nothing
      · exact .head fits (by omega) (by rw [here])

/-- The commands of a group in the order in which they are written. -/
def inOrder (commands : List Command) : List Command :=
  if Client.coalescable commands then byAddress commands else commands

theorem inOrder_perm (commands : List Command) : (inOrder commands).Perm commands := by
  unfold inOrder
  split
  · exact List.mergeSort_perm ..
  · exact .refl commands

/-- A request may end behind `count` registers of the command: it is written together with others, and the end is a
whole number of full requests behind the lowest address of them. -/
def EndsWithin (limits : Limits) (commands : List Command) (c : Command) (count : Nat) : Prop :=
  Client.coalescable commands = true ∧ c ∈ commands ∧ ∃ first ∈ commands, (∀ d ∈ commands, first.address ≤ d.address) ∧
    ∃ requests : Nat, c.address.toNat + count =
      first.address.toNat + requests * limits.writeCeiling

namespace Plan

/-- The plan writes the registers of the commands in turn, and what a part of it leaves is the same interrupted. -/
structure Carries (cut : Command → Nat → Prop) (p : Plan) (commands : List Command) : Prop where
  partly : ∀ (k : Nat) (m : Memory), (∀ w ∈ p.writes.take k, w.2.Inside) →
    Interrupted cut m commands (m.writeAll (p.writes.take k))
  wholly : p.failure = none → (∀ w ∈ p.writes, w.2.Inside) →
    (∀ c ∈ commands, c.Inside) ∧ ∀ m : Memory, m.writeAll p.writes = m.storeAll commands

variable {cut : Command → Nat → Prop} {p q : Plan} {more : List Command}

theorem carries_nil : Carries cut {} [] where
  partly _ _ _ := by
    rw [List.take_nil]
    exact .nothing
  wholly _ _ := ⟨nofun, fun _ => rfl⟩

theorem Carries.mono {cut' : Command → Nat → Prop} (weaker : ∀ c ∈ commands, ∀ count, cut c count → cut' c count)
    (h : Carries cut p commands) : Carries cut' p commands where
  partly k m inside := (h.partly k m inside).mono weaker
  wholly := h.wholly

theorem Carries.append (first : Carries cut p commands) (rest : Carries cut q more) :
    Carries cut (p.append q) (commands ++ more) := by
  obtain ⟨writes, failure⟩ := p
  cases failure with
  | some e =>
    constructor
    · intro k m inside
      exact (first.partly k m inside).append more
    · intro none
      nomatch none
  | none =>
    constructor
    · intro k m inside
      change ∀ w ∈ (writes ++ q.writes).take k, w.2.Inside at inside
      change Interrupted cut m _ (m.writeAll ((writes ++ q.writes).take k))
      rw [List.take_append] at inside ⊢
      obtain ⟨before, after⟩ := List.forall_mem_append.mp inside
      by_cases early : k ≤ writes.length
      · rw [Nat.sub_eq_zero_of_le early, List.take_zero, List.append_nil]
        exact (first.partly k m before).append more
      · rw [List.take_of_length_le (by omega)] at before ⊢
        obtain ⟨stored, same⟩ := first.wholly rfl before
        have later := rest.partly (k - writes.length) (m.writeAll writes) after
        rw [Memory.writeAll, List.foldl_append]
        rw [same m] at later
        have done : List.foldl (fun m w => w.2.apply m) m writes = m.storeAll commands := same m
        rw [done]
        exact later.prepend stored
    · intro none inside
      obtain ⟨before, after⟩ := List.forall_mem_append.mp inside
      obtain ⟨stored, same⟩ := first.wholly rfl before
      obtain ⟨stored', same'⟩ := rest.wholly none after
      refine ⟨List.forall_mem_append.mpr ⟨stored, stored'⟩, ?_⟩
      intro m
      rw [m.storeAll_append, ← same m, ← same']
      exact List.foldl_append

theorem writeAll_ofWords (slave : UInt8) (commands : List Command) (m : Memory) :
    m.writeAll (commands.map fun c => (slave, .ofWords c.address c.words)) = m.storeAll commands := by
  simp only [Memory.writeAll, Memory.storeAll, List.foldl_map, Assignment.apply_ofWords]

theorem inside_of_mem {slave : UInt8} {commands : List Command}
    (inside : ∀ w ∈ commands.map fun c => (slave, Assignment.ofWords c.address c.words), w.2.Inside) {c : Command}
    (member : c ∈ commands) : c.Inside := by
  have covered := inside (slave, .ofWords c.address c.words) (List.mem_map.mpr ⟨c, member, rfl⟩)
  exact Assignment.inside_ofWords.mp covered

theorem encodes_of_failure_each (slave : UInt8) {commands : List Command}
    (none : (each slave commands).failure = none) : commands.takeWhile Command.encodes = commands := by
  induction commands with
  | nil => rfl
  | cons c rest ih =>
    rw [each] at none
    cases encoded : c.encode with
    | error e =>
      rw [encoded] at none
      exact absurd none (Option.some_ne_none e)
    | ok words =>
      rw [encoded] at none
      have known : c.encodes = true := by rw [Command.encodes, encoded]; rfl
      rw [List.takeWhile_cons_of_pos known, ih none]

/-- Commands that are written one by one are stored one by one. -/
theorem carries_each (slave : UInt8) (commands : List Command) : Carries cut (each slave commands) commands := by
  constructor
  · intro k m inside
    rw [writes_each, ← List.map_take] at inside ⊢
    rw [writeAll_ofWords]
    obtain ⟨rest, split⟩ := (List.take_prefix k _).trans (List.takeWhile_prefix (l := commands) Command.encodes)
    have stopped : Interrupted cut m ((commands.takeWhile Command.encodes).take k ++ rest)
      (m.storeAll ((commands.takeWhile Command.encodes).take k)) := .between fun c => inside_of_mem inside
    rwa [split] at stopped
  · intro none inside
    rw [writes_each, encodes_of_failure_each slave none] at inside ⊢
    exact ⟨fun c => inside_of_mem inside, writeAll_ofWords slave commands⟩

theorem carries_failure (e : Error) (commands : List Command) : Carries cut (ofFailure e) commands where
  partly k m _ := by
    rw [ofFailure, List.take_nil]
    exact .nothing
  wholly none := nomatch none

/-- Commands that are written together are stored in address order, and a request may end within one of them. -/
theorem carries_coalesced (limits : Limits) (slave : UInt8) {commands : List Command}
    (whole : Client.coalescable commands = true) :
    Carries (EndsWithin limits commands) (coalesced limits slave commands) (byAddress commands) := by
  obtain ⟨known, first, rest, sorted, row⟩ := Client.row_of_coalescable whole
  rw [← sorted] at row
  have order : (byAddress commands).Perm commands := List.mergeSort_perm ..
  have sizes : ∀ c ∈ byAddress commands, c.words.length = c.span := by
    intro c member
    exact (known c (order.mem_iff.mp member)).2
  obtain ⟨size, planned⟩ := coalesced_eq limits slave whole
  rw [planned, lowest_eq_of_byAddress sorted]
  cases fault : rowFault? limits commands with
  | some e => exact carries_failure e _
  | none =>
    obtain ⟨short, positive⟩ := rowFault?_eq_none_iff.mp fault
    rw [← size, lowest_eq_of_byAddress sorted] at short
    rw [Option.elim_none]
    have inside : ∀ c ∈ byAddress commands, c.Inside := by
      intro c member
      exact Nat.le_trans (bounds_of_contiguousFrom row sizes member).2 short
    have stored (k : Nat) (m : Memory) :
        m.writeAll ((ofWrites slave (Assignment.pieces limits.writeCeiling first.address.toNat
          (Batch.registers (byAddress commands)))).writes.take k) =
        (Assignment.registers (.ofNat first.address.toNat)
          ((Batch.registers (byAddress commands)).take (k * limits.writeCeiling))).apply m := by
      rw [ofWrites, ← List.map_take, Memory.writeAll, List.foldl_map]
      exact Assignment.foldl_apply_pieces positive k first.address.toNat _ m
    constructor
    · intro k m _
      rw [stored]
      refine (interrupted_of_contiguousFrom row sizes inside _ m).mono ?_
      intro c member count here
      refine ⟨whole, order.mem_iff.mp member, first, order.mem_iff.mp (sorted ▸ List.mem_cons_self), ?_, k, here⟩
      intro d held
      exact UInt16.le_iff_toNat_le.mpr (bounds_of_contiguousFrom row sizes (order.mem_iff.mpr held)).1
    · intro _ _
      refine ⟨inside, ?_⟩
      intro m
      have all := stored (ofWrites slave (Assignment.pieces limits.writeCeiling first.address.toNat
        (Batch.registers (byAddress commands)))).writes.length m
      rw [List.take_length, ofWrites, List.length_map,
        List.take_of_length_le (Assignment.length_le_pieces positive _ _)] at all
      exact all.trans (foldl_apply_of_contiguousFrom row sizes m).symm

theorem carries_group (limits : Limits) {key : Key} (register : key.function = 0x06 ∨ key.function = 0x10)
    (commands : List Command) :
    Carries (EndsWithin limits commands) (group limits key commands) (inOrder commands) := by
  rw [group_eq_registers limits register, Plan.registers, inOrder]
  split
  case isTrue whole => exact carries_coalesced limits key.slave whole
  case isFalse => exact carries_each key.slave commands

end Plan

/-- All commands of a batch, in the order in which they are written. -/
def written (groups : List (Key × Array Command)) : List Command := groups.flatMap fun group => inOrder group.2.toList

def all (batch : Batch) : List Command := batch.groups.flatMap (·.2.toList)

theorem written_perm (batch : Batch) : (written batch.groups).Perm batch.all := by
  unfold all
  induction batch.groups with
  | nil => exact .refl []
  | cons group rest ih => exact (inOrder_perm group.2.toList).append ih

theorem carries_ofGroups (limits : Limits) {groups : List (Key × Array Command)}
    (registers : ∀ group ∈ groups, group.1.function = 0x06 ∨ group.1.function = 0x10) :
    Plan.Carries (fun c count => ∃ group ∈ groups, EndsWithin limits group.2.toList c count)
      (Plan.ofGroups limits groups) (written groups) := by
  induction groups with
  | nil => exact Plan.carries_nil
  | cons group rest ih =>
    obtain ⟨register, registers⟩ := List.forall_mem_cons.mp registers
    let within := fun c count => ∃ g ∈ group :: rest, EndsWithin limits g.2.toList c count
    have first : Plan.Carries within (Plan.group limits group.1 group.2.toList) (inOrder group.2.toList) :=
      (Plan.carries_group limits register _).mono fun c _ count here => ⟨group, List.mem_cons_self, here⟩
    have later : Plan.Carries within (Plan.ofGroups limits rest) (written rest) :=
      (ih registers).mono fun c _ count ⟨g, member, here⟩ => ⟨g, List.mem_cons_of_mem _ member, here⟩
    exact first.append later

end Batch

end Modbus
