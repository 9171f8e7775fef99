import Mathlib.Algebra.GroupWithZero.Nat
import Mathlib.Data.List.Forall2
import Modbus.Proofs.Grouping

/-! Whole runs of a batcher. Every command that is enqueued is released once, under its own key, or dropped by a clear, or
still pending; and a batch holds what came since the last release or clear. -/
namespace Modbus.Batch

/-- One group for each key that a command has, in the order of the keys. It holds the commands of the key in the order in
which they are given. -/
structure Holds (b : Batch) (commands : List Command) : Prop where
  order : b.groups.Pairwise fun a b => a.1.before b.1 = true
  groups : ∀ key (group : Array Command),
    (key, group) ∈ b.groups ↔ group.toList = ofKey key commands ∧ ofKey key commands ≠ []

variable {b : Batch} {commands : List Command}

theorem Holds.grouped (h : b.Holds commands) : Grouped b.groups where
  own := by
    intro group member c held
    rw [((h.groups group.1 group.2).mp member).1, ofKey] at held
    exact of_decide_eq_true (List.mem_filter.mp held).2
  order := h.order

theorem Holds.same (h : b.Holds commands) (key : Key) : ofKey key (flatten b.groups) = ofKey key commands := by
  by_cases none : ofKey key commands = []
  · rw [none]
    refine h.grouped.ofKey_flatten_eq_nil ?_
    rintro ⟨_, group⟩ member rfl
    exact ((h.groups _ group).mp member).2 none
  · have member : (key, (ofKey key commands).toArray) ∈ b.groups := (h.groups key _).mpr ⟨rfl, none⟩
    exact h.grouped.ofKey_flatten_of_mem member

theorem Holds.filled (h : b.Holds commands) : ∀ group ∈ b.groups, group.2.toList ≠ [] := by
  intro group member
  obtain ⟨all, some⟩ := (h.groups group.1 group.2).mp member
  rw [all]
  exact some

/-- Groups that are not empty are those of the commands if key by key they have the same. -/
theorem holds_of_same (grouped : Grouped b.groups) (filled : ∀ group ∈ b.groups, group.2.toList ≠ [])
    (same : ∀ key, ofKey key (flatten b.groups) = ofKey key commands) : b.Holds commands where
  order := grouped.order
  groups := by
    intro key group
    rw [← same]
    constructor
    · intro member
      rw [grouped.ofKey_flatten_of_mem member]
      exact ⟨rfl, filled _ member⟩
    -- A command of the key stands in some group, and since the group has its key it is the one.
    · rintro ⟨all, some⟩
      obtain ⟨c, mine⟩ := List.exists_mem_of_ne_nil _ some
      obtain ⟨held, own⟩ := List.mem_filter.mp mine
      obtain ⟨⟨key', group'⟩, member, here⟩ := grouped.key_of_mem held
      obtain rfl : key = key' := (of_decide_eq_true own).symm.trans here
      rw [grouped.ofKey_flatten_of_mem member, Array.toList_inj] at all
      rwa [all]

theorem holds_empty : empty.Holds [] := holds_of_same grouped_nil nofun fun _ => rfl

theorem filled_insert {groups : List (Key × Array Command)} (filled : ∀ group ∈ groups, group.2.toList ≠ [])
    (key : Key) (command : Command) : ∀ group ∈ insert key command groups, group.2.toList ≠ [] := by
  induction groups with
  | nil => exact List.forall_mem_singleton.mpr (by simp)
  | cons first rest ih =>
    obtain ⟨some, others⟩ := List.forall_mem_cons.mp filled
    unfold insert
    split
    · exact List.forall_mem_cons.mpr ⟨by simp, others⟩
    · split
      · exact List.forall_mem_cons.mpr ⟨by simp, filled⟩
      · exact List.forall_mem_cons.mpr ⟨some, ih others⟩

theorem Holds.add (h : b.Holds commands) (c : Command) : (b.add c).Holds (commands ++ [c]) := by
  refine holds_of_same (h.grouped.insert c) (filled_insert h.filled c.key c) fun key => ?_
  rw [ofKey_append, ← h.same]
  exact h.grouped.ofKey_flatten_insert key c

theorem Holds.perm (h : b.Holds commands) : (flatten b.groups).Perm commands := by
  refine List.perm_iff_count.mpr fun c => ?_
  have own (l : List Command) : (ofKey c.key l).count c = l.count c := List.count_filter (decide_eq_true rfl)
  rw [← own, h.same, own]

theorem perm_of_forall₂_holds {batches : List Batch} {lists : List (List Command)}
    (each : List.Forall₂ Holds batches lists) : (batches.flatMap (flatten ·.groups)).Perm lists.flatten := by
  induction each with
  | nil => exact .refl []
  | cons first _ ih => exact first.perm.append ih

theorem length_flatten (groups : List (Key × Array Command)) :
    (flatten groups).length = (groups.map (·.2.size)).sum := List.length_flatMap

end Modbus.Batch

namespace Modbus.Batcher

/-- What one can ask of a batcher. -/
inductive Act where
  | enqueue (command : Command)
  | release (now : Int64)
  | clear

/-- The batch that is handed over, if any, and the batcher afterwards. -/
def act (b : Batcher) : Act → List Batch × Batcher
  | .enqueue c => ([], b.enqueue c)
  | .release now => ([(b.release now).1], (b.release now).2)
  | .clear => ([], b.clear)

/-- The batches that a whole run hands over, the first one first, and the batcher at its end. -/
def run (b : Batcher) : List Act → List Batch × Batcher
  | [] => ([], b)
  | a :: rest =>
    let (first, next) := b.act a
    let (later, last) := next.run rest
    (first ++ later, last)

/-- Where commands belong by what was asked for. Each release and each clear takes those that were enqueued since the one
before it, whichever that was; the others wait. -/
structure Ledger where
  released : List (List Command) := []
  cleared : List (List Command) := []
  waiting : List Command := []

namespace Ledger

def enter (l : Ledger) : Act → Ledger
  | .enqueue c => { l with waiting := l.waiting ++ [c] }
  | .release _ => { l with released := l.released ++ [l.waiting], waiting := [] }
  | .clear => { l with cleared := l.cleared ++ [l.waiting], waiting := [] }

def of (acts : List Act) : Ledger := acts.foldl enter {}

def all (l : Ledger) : List Command := l.released.flatten ++ l.cleared.flatten ++ l.waiting

end Ledger

def enqueued (acts : List Act) : List Command :=
  acts.filterMap fun
    | .enqueue c => some c
    | _ => none

theorem Ledger.perm_all_enter (l : Ledger) (a : Act) (rest : List Act) :
    ((l.enter a).all ++ enqueued rest).Perm (l.all ++ enqueued (a :: rest)) := by
  cases a with
  | enqueue c => simp [all, enter, enqueued]
  | release now =>
    refine List.Perm.append_right (enqueued rest) ?_
    simp only [all, enter, List.flatten_append, List.flatten_singleton, List.append_nil, List.append_assoc]
    exact List.perm_append_comm.append_left l.released.flatten
  | clear =>
    refine List.Perm.append_right (enqueued rest) ?_
    simp only [all, enter, List.flatten_append, List.flatten_singleton, List.append_nil, List.append_assoc]
    exact .refl _

/-- Nothing gets lost in the ledger and nothing is entered twice. -/
theorem Ledger.perm_all_foldl (acts : List Act) (l : Ledger) :
    (acts.foldl enter l).all.Perm (l.all ++ enqueued acts) := by
  induction acts generalizing l with
  | nil => simp [enqueued]
  | cons a rest ih => exact (ih (l.enter a)).trans (l.perm_all_enter a rest)

example (a b c : Command) :
    Ledger.of [.enqueue a, .clear, .enqueue b, .release 0, .enqueue c] = ⟨[[b]], [[a]], [c]⟩ := rfl

/-- A batcher that has handed over what the ledger says, and counts and holds what the ledger says is waiting. -/
structure Accounts (l : Ledger) (released : List Batch) (b : Batcher) : Prop where
  count : b.count = l.waiting.length
  pending : b.pending.Holds l.waiting
  released : List.Forall₂ Batch.Holds released l.released

theorem Accounts.act {l : Ledger} {released : List Batch} {b : Batcher} (h : Accounts l released b) (a : Act) :
    Accounts (l.enter a) (released ++ (b.act a).1) (b.act a).2 := by
  cases a with
  | enqueue c =>
    refine ⟨?_, h.pending.add c, ?_⟩
    · simp [Batcher.act, Batcher.enqueue, Ledger.enter, h.count]
    · rw [Batcher.act, List.append_nil]
      exact h.released
  | release now =>
    exact ⟨rfl, Batch.holds_empty, List.rel_append h.released (.cons h.pending .nil)⟩
  | clear =>
    refine ⟨rfl, Batch.holds_empty, ?_⟩
    rw [Batcher.act, List.append_nil]
    exact h.released

theorem Accounts.run {l : Ledger} {released : List Batch} {b : Batcher} (h : Accounts l released b)
    (acts : List Act) : Accounts (acts.foldl Ledger.enter l) (released ++ (b.run acts).1) (b.run acts).2 := by
  -- From any ledger on, with what was handed over so far in front of what the rest of the run hands over.
  induction acts generalizing l released b with
  | nil =>
    rw [Batcher.run, List.append_nil]
    exact h
  | cons a rest ih =>
    have later := ih (h.act a)
    rw [List.append_assoc] at later
    exact later

/-- After any run the counter is the number of commands in the groups, each release has handed over the commands that
came since the release or clear before it, those that came since the last one are pending, and each command is in one of
these places or was cleared. -/
theorem run_accounts (window : Int64) (maxBatch : Nat) (now : Int64) (acts : List Act) :
    let done := (start window maxBatch now).run acts
    let ledger := Ledger.of acts
    done.2.count = (done.2.pending.groups.map (·.2.size)).sum ∧
      List.Forall₂ Batch.Holds done.1 ledger.released ∧
      done.2.pending.Holds ledger.waiting ∧
      (enqueued acts).Perm
        (done.1.flatMap (Batch.flatten ·.groups) ++ ledger.cleared.flatten ++
          Batch.flatten done.2.pending.groups) := by
  intro done ledger
  have fresh : Accounts {} [] (start window maxBatch now) := ⟨rfl, Batch.holds_empty, .nil⟩
  have accounts : Accounts ledger done.1 done.2 := fresh.run acts
  have released : (done.1.flatMap (Batch.flatten ·.groups)).Perm ledger.released.flatten :=
    Batch.perm_of_forall₂_holds accounts.released
  refine ⟨?_, accounts.released, accounts.pending, ?_⟩
  · rw [accounts.count, ← accounts.pending.perm.length_eq, Batch.length_flatten]
  · have balance : ledger.all.Perm (enqueued acts) := Ledger.perm_all_foldl acts {}
    exact balance.symm.trans ((released.symm.append_right _).append accounts.pending.perm.symm)

end Modbus.Batcher
