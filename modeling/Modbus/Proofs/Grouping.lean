import Modbus.Batch.Batcher

/-! How commands are grouped while they wait. Groups stand in the order of their keys, a group holds the commands of its
key, and these stand in the order in which they came. -/
namespace Modbus.Batch

theorem Key.before_iff (a b : Key) :
    a.before b = true ↔ a.slave.toNat < b.slave.toNat ∨
      (a.slave.toNat = b.slave.toNat ∧ a.function.toNat < b.function.toNat) := by
  simp only [before, Bool.or_eq_true, Bool.and_eq_true, decide_eq_true_eq, beq_iff_eq, UInt8.lt_iff_toNat_lt,
    ← UInt8.toNat_inj]

theorem Key.eq_iff (a b : Key) : a = b ↔ a.slave.toNat = b.slave.toNat ∧ a.function.toNat = b.function.toNat := by
  rw [UInt8.toNat_inj, UInt8.toNat_inj]
  constructor
  · rintro rfl
    exact ⟨rfl, rfl⟩
  · rintro ⟨slaves, functions⟩
    cases a
    cases b
    exact Key.mk.injEq .. |>.mpr ⟨slaves, functions⟩

theorem Key.before_trans {a b c : Key} (first : a.before b = true) (rest : b.before c = true) : a.before c = true := by
  rw [before_iff] at *
  omega

theorem Key.ne_of_before {a b : Key} (h : a.before b = true) : a ≠ b := by
  rw [before_iff] at h
  rw [ne_eq, eq_iff]
  omega

theorem Key.before_of_not {a b : Key} (different : a ≠ b) (not : ¬ a.before b = true) : b.before a = true := by
  rw [before_iff] at *
  rw [ne_eq, eq_iff] at different
  omega

variable {groups : List (Key × Array Command)} {key : Key} {command : Command}

/-- All commands, group after group. -/
def flatten (groups : List (Key × Array Command)) : List Command := groups.flatMap (·.2.toList)

theorem flatten_cons (group : Key × Array Command) (rest : List (Key × Array Command)) :
    flatten (group :: rest) = group.2.toList ++ flatten rest := List.flatMap_cons

/-- Every command stands in the group of its key, and the groups stand in the order of their keys. -/
structure Grouped (groups : List (Key × Array Command)) : Prop where
  own : ∀ group ∈ groups, ∀ c ∈ group.2.toList, c.key = group.1
  order : groups.Pairwise fun a b => a.1.before b.1 = true

theorem grouped_nil : Grouped [] := ⟨nofun, .nil⟩

theorem Grouped.tail {group : Key × Array Command} (h : Grouped (group :: groups)) : Grouped groups :=
  ⟨fun g member => h.own g (List.mem_cons_of_mem _ member), (List.pairwise_cons.mp h.order).2⟩

theorem mem_insert {group : Key × Array Command} (member : group ∈ insert key command groups) :
    group.1 = key ∨ ∃ g ∈ groups, group.1 = g.1 := by
  induction groups with
  | nil => exact .inl (congrArg Prod.fst (List.mem_singleton.mp member))
  | cons first rest ih =>
    unfold insert at member
    split at member
    · rcases List.mem_cons.mp member with rfl | later
      · exact .inr ⟨first, List.mem_cons_self, rfl⟩
      · exact .inr ⟨group, List.mem_cons_of_mem _ later, rfl⟩
    · split at member
      · rcases List.mem_cons.mp member with rfl | later
        · exact .inl rfl
        · exact .inr ⟨group, later, rfl⟩
      · rcases List.mem_cons.mp member with rfl | later
        · exact .inr ⟨first, List.mem_cons_self, rfl⟩
        · exact (ih later).imp_right fun ⟨g, held, same⟩ => ⟨g, List.mem_cons_of_mem _ held, same⟩

theorem Grouped.insert (h : Grouped groups) (command : Command) :
    Grouped (Batch.insert command.key command groups) := by
  induction groups with
  | nil => exact ⟨by simp [Batch.insert], .cons nofun .nil⟩
  | cons first rest ih =>
    obtain ⟨later, order⟩ := List.pairwise_cons.mp h.order
    obtain ⟨own, others⟩ := List.forall_mem_cons.mp h.own
    unfold Batch.insert
    split
    case isTrue same =>
      refine ⟨List.forall_mem_cons.mpr ⟨?_, others⟩, .cons later order⟩
      intro c member
      rw [Array.toList_push] at member
      rcases List.mem_append.mp member with held | new
      · exact own c held
      · rw [List.mem_singleton.mp new]
        exact same
    case isFalse different =>
      split
      case isTrue sooner =>
        refine ⟨List.forall_mem_cons.mpr ⟨by simp, h.own⟩, .cons (List.forall_mem_cons.mpr ⟨sooner, ?_⟩) h.order⟩
        intro g member
        exact Key.before_trans sooner (later g member)
      case isFalse not =>
        have rest := ih h.tail
        refine ⟨List.forall_mem_cons.mpr ⟨own, rest.own⟩, .cons ?_ rest.order⟩
        intro g member
        rcases mem_insert member with key | ⟨g', held, key⟩
        · rw [key]
          exact Key.before_of_not different not
        · rw [key]
          exact later g' held

/-- The commands with a key, in the order in which they stand. -/
def ofKey (key : Key) (commands : List Command) : List Command := commands.filter fun c => c.key = key

theorem ofKey_append (key : Key) (xs ys : List Command) : ofKey key (xs ++ ys) = ofKey key xs ++ ofKey key ys :=
  List.filter_append ..

theorem ofKey_eq_nil {commands : List Command} (other : ∀ c ∈ commands, c.key ≠ key) : ofKey key commands = [] := by
  refine List.filter_eq_nil_iff.mpr ?_
  intro c member
  simpa using other c member

theorem Grouped.key_of_mem (h : Grouped groups) {c : Command} (member : c ∈ flatten groups) :
    ∃ g ∈ groups, c.key = g.1 := by
  obtain ⟨g, group, held⟩ := List.mem_flatMap.mp member
  exact ⟨g, group, h.own g group c held⟩

theorem Grouped.ofKey_flatten_eq_nil (h : Grouped groups) (absent : ∀ g ∈ groups, g.1 ≠ key) :
    ofKey key (flatten groups) = [] := by
  refine ofKey_eq_nil fun c held => ?_
  obtain ⟨g, group, same⟩ := h.key_of_mem held
  rw [same]
  exact absent g group

/-- The commands with the key of a group are those of the group. -/
theorem Grouped.ofKey_flatten_of_mem (h : Grouped groups) {commands : Array Command}
    (member : (key, commands) ∈ groups) : ofKey key (flatten groups) = commands.toList := by
  induction groups with
  | nil => nomatch member
  | cons first rest ih =>
    obtain ⟨later, -⟩ := List.pairwise_cons.mp h.order
    obtain ⟨own, -⟩ := List.forall_mem_cons.mp h.own
    rw [flatten_cons, ofKey_append]
    rcases List.mem_cons.mp member with rfl | back
    · have none : ofKey key (flatten rest) = [] :=
        h.tail.ofKey_flatten_eq_nil fun g group => (Key.ne_of_before (later g group)).symm
      have all : ofKey key commands.toList = commands.toList := List.filter_eq_self.mpr (by simpa using own)
      rw [none, all, List.append_nil]
    · have none : ofKey key first.2.toList = [] :=
        ofKey_eq_nil fun c held => own c held ▸ Key.ne_of_before (later _ back)
      rw [none, List.nil_append]
      exact ih h.tail back

/-- A command that comes is the last one of its key, and other keys do not notice. -/
theorem Grouped.ofKey_flatten_insert (h : Grouped groups) (key : Key) (command : Command) :
    ofKey key (flatten (Batch.insert command.key command groups)) =
      ofKey key (flatten groups) ++ ofKey key [command] := by
  induction groups with
  | nil => rfl
  | cons first rest ih =>
    obtain ⟨later, -⟩ := List.pairwise_cons.mp h.order
    obtain ⟨own, -⟩ := List.forall_mem_cons.mp h.own
    have beyond (member : command.key = key) (bound : ∀ g ∈ rest, command.key.before g.1 = true) :
        ofKey key (flatten rest) = [] := by
      refine h.tail.ofKey_flatten_eq_nil fun g group => ?_
      rw [← member]
      exact (Key.ne_of_before (bound g group)).symm
    have swap (xs : List Command) (none : command.key = key → ofKey key xs = []) :
        ofKey key [command] ++ ofKey key xs = ofKey key xs ++ ofKey key [command] := by
      by_cases same : command.key = key
      · rw [none same, List.append_nil, List.nil_append]
      · rw [ofKey_eq_nil (List.forall_mem_singleton.mpr same), List.nil_append, List.append_nil]
    unfold Batch.insert
    split
    case isTrue same =>
      rw [flatten_cons, flatten_cons, Array.toList_push]
      simp only [ofKey_append]
      rw [List.append_assoc, List.append_assoc, swap]
      intro member
      exact beyond member fun g group => same ▸ later g group
    case isFalse different =>
      split
      case isTrue sooner =>
        rw [flatten_cons, ofKey_append, ← swap]
        intro member
        rw [flatten_cons, ofKey_append, ofKey_eq_nil, List.nil_append]
        · exact beyond member fun g group => Key.before_trans sooner (later g group)
        · intro c held
          rw [own c held, ← member]
          exact fun back => different back.symm
      case isFalse not =>
        rw [flatten_cons, flatten_cons, ofKey_append, ofKey_append, ih h.tail, List.append_assoc]

theorem Grouped.pairwise_flatten (h : Grouped groups) :
    (flatten groups).Pairwise fun a b => a.key = b.key ∨ a.key.before b.key = true := by
  refine List.pairwise_flatMap.mpr ⟨?_, ?_⟩
  · intro g member
    exact List.pairwise_of_forall_mem_list fun a left b right =>
      .inl ((h.own g member a left).trans (h.own g member b right).symm)
  · refine h.order.imp_of_mem fun {g g'} group group' sooner a left b right => .inr ?_
    rw [h.own g group a left, h.own g' group' b right]
    exact sooner

theorem grouped_foldl_add (commands : List Command) {b : Batch} (h : Grouped b.groups) :
    Grouped (commands.foldl add b).groups := by
  induction commands generalizing b with
  | nil => exact h
  | cons c rest ih => exact ih (b := b.add c) (h.insert c)

/-- What is added to a batch comes out again under its key, in the order in which it was added. -/
theorem ofKey_foldl_add (commands : List Command) {b : Batch} (h : Grouped b.groups) (key : Key) :
    ofKey key (flatten (commands.foldl add b).groups) = ofKey key (flatten b.groups) ++ ofKey key commands := by
  induction commands generalizing b with
  | nil => rw [List.foldl_nil, ofKey, ofKey, List.filter_nil, List.append_nil]
  | cons c rest ih =>
    have one : ofKey key (flatten (b.add c).groups) = ofKey key (flatten b.groups) ++ ofKey key [c] :=
      h.ofKey_flatten_insert key c
    rw [List.foldl_cons, ih (b := b.add c) (h.insert c), one, List.append_assoc, ← ofKey_append, List.singleton_append]

/-- The same commands in the order of their keys, those of one key in their old order. -/
structure StableSort (sorted commands : List Command) : Prop where
  order : sorted.Pairwise fun a b => a.key = b.key ∨ a.key.before b.key = true
  same : ∀ key, ofKey key sorted = ofKey key commands

theorem StableSort.mem_iff {sorted commands : List Command} (h : StableSort sorted commands) (c : Command) :
    c ∈ sorted ↔ c ∈ commands := by
  have mine (l : List Command) : c ∈ l ↔ c ∈ ofKey c.key l := by
    rw [ofKey, List.mem_filter, decide_eq_true rfl]
    exact (and_iff_left rfl).symm
  rw [mine, h.same, ← mine]

end Modbus.Batch

namespace Modbus.Batcher

open Batch (Grouped StableSort)

theorem pending_foldl_enqueue (b : Batcher) (commands : List Command) :
    (commands.foldl enqueue b).pending = commands.foldl Batch.add b.pending := by
  induction commands generalizing b with
  | nil => rfl
  | cons c rest ih => exact ih (b.enqueue c)

/-- What was enqueued since nothing was pending is released in the order of the keys. -/
theorem stableSort_release {b : Batcher} (fresh : b.pending = .empty) (commands : List Command) (now : Int64) :
    let batch := ((commands.foldl enqueue b).release now).1
    Grouped batch.groups ∧ StableSort (Batch.flatten batch.groups) commands := by
  intro batch
  have pending : batch = commands.foldl Batch.add ⟨[]⟩ :=
    (pending_foldl_enqueue b commands).trans (congrArg (commands.foldl Batch.add ·) fresh)
  rw [pending]
  have grouped := Batch.grouped_foldl_add commands (b := ⟨[]⟩) Batch.grouped_nil
  exact ⟨grouped, grouped.pairwise_flatten, Batch.ofKey_foldl_add commands Batch.grouped_nil⟩

end Modbus.Batcher
