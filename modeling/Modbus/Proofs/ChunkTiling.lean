import Mathlib.Algebra.Order.Floor.Div
import Modbus.Proofs.ChunkPlan

/-! The spans of a plan, one by one. A plan has as few spans as its ceiling allows, all of them full but the last, and
the start of each is known from its index alone. Inside the address space they name every address of the range once, in
order. -/
namespace Modbus.Chunk

theorem lt_ceilDiv_iff {step total i : Nat} (positive : 0 < step) : i < total ⌈/⌉ step ↔ i * step < total := by
  rw [← not_le, ← not_le, ceilDiv_le_iff_le_mul positive, Nat.mul_comm]

/-- A list that has an element exactly at the indices of the multiples of `step` below `total`. -/
theorem length_eq_ceilDiv {α : Type} {l : List α} {element : Nat → α} {step total : Nat} (positive : 0 < step)
    (elements : ∀ i, l[i]? = if i * step < total then some (element i) else none) : l.length = total ⌈/⌉ step := by
  refine eq_of_forall_lt_iff fun i => ?_
  rw [lt_ceilDiv_iff positive, ← not_le, ← List.getElem?_eq_none_iff, elements]
  split <;> simp [*]

/-- The span of a plan at an index. -/
def piece (ceiling start remaining i : Nat) : Span :=
  ⟨.ofNat (min (start + i * ceiling) lastAddress), .ofNat (min (remaining - i * ceiling) ceiling)⟩

variable {ceiling start remaining : Nat}

theorem getElem?_pieces (positive : 0 < ceiling) (address : start ≤ lastAddress) (i : Nat) :
    (pieces ceiling start remaining)[i]? =
      if i * ceiling < remaining then some (piece ceiling start remaining i) else none := by
  induction i generalizing start remaining with
  | zero =>
    rw [Nat.zero_mul]
    by_cases more : 0 < remaining
    · rw [pieces_pos positive more, if_pos more, piece, Nat.zero_mul, Nat.add_zero, Nat.sub_zero,
        Nat.min_eq_left address]
      rfl
    · rw [Nat.eq_zero_of_not_pos more, pieces_zero]
      rfl
  | succ i ih =>
    rw [Nat.succ_mul]
    by_cases more : 0 < remaining
    · rw [pieces_pos positive more, List.getElem?_cons_succ, ih (Nat.min_le_right _ _)]
      by_cases full : ceiling ≤ remaining
      · rw [Nat.min_eq_right full]
        refine if_congr (by omega) ?_ rfl
        have next : min (min (start + ceiling) lastAddress + i * ceiling) lastAddress =
            min (start + (i * ceiling + ceiling)) lastAddress := by omega
        rw [piece, piece, Nat.succ_mul, next, Nat.sub_sub, Nat.add_comm ceiling]
      · -- The first span is the last one too.
        rw [if_neg (by omega), if_neg (by omega)]
    · rw [Nat.eq_zero_of_not_pos more, pieces_zero, if_neg (Nat.not_lt_zero _)]
      rfl

theorem length_pieces (positive : 0 < ceiling) (address : start ≤ lastAddress) (remaining : Nat) :
    (pieces ceiling start remaining).length = remaining ⌈/⌉ ceiling :=
  length_eq_ceilDiv positive (getElem?_pieces positive address)

/-- Addresses are numbers here, so that a span may reach past the last one. -/
def Span.Covers (span : Span) (address : Nat) : Prop :=
  span.start.toNat ≤ address ∧ address < span.start.toNat + span.count.toNat

namespace Tiles

variable {stop : Nat} {spans : List Span}

theorem bounds (tiles : Tiles start spans stop) {span : Span} (member : span ∈ spans) :
    start ≤ span.start.toNat ∧ span.start.toNat + span.count.toNat ≤ stop := by
  induction tiles with
  | nil => nomatch member
  | cons here rest ih =>
    rcases List.mem_cons.mp member with rfl | later
    · exact ⟨Nat.le_of_eq here.symm, here ▸ rest.le⟩
    · have := ih later
      omega

/-- Each span ends before the later ones begin. -/
theorem pairwise (tiles : Tiles start spans stop) :
    spans.Pairwise fun a b => a.start.toNat + a.count.toNat ≤ b.start.toNat := by
  induction tiles with
  | nil => exact .nil
  | cons here rest ih =>
    refine .cons (fun b later => ?_) ih
    rw [here]
    exact (rest.bounds later).1

theorem exists_covers_iff (tiles : Tiles start spans stop) {address : Nat} :
    (∃ span ∈ spans, span.Covers address) ↔ start ≤ address ∧ address < stop := by
  induction tiles with
  | nil start =>
    constructor
    · rintro ⟨_, member, _⟩
      nomatch member
    · rintro ⟨lower, upper⟩
      exact absurd upper (Nat.not_lt_of_le lower)
  | cons here rest ih =>
    have order := rest.le
    rw [List.exists_mem_cons_iff, ih, Span.Covers, here]
    omega

end Tiles

/-- A plan has as many spans as the ceiling makes necessary. They add up to the quantity, all but the last are full, and
each starts as many ceilings behind the first as its index says, or at the last address. Inside the address space they
lie in order and side by side, and together they cover the range and nothing else. -/
theorem plan_covers_range (start quantity ceiling : UInt16) (positive : 1 ≤ ceiling) :
    ∃ spans, plan start quantity ceiling = .ok spans ∧
      spans.length = quantity.toNat ⌈/⌉ ceiling.toNat ∧
      (spans.map (·.count.toNat)).sum = quantity.toNat ∧
      (∀ (i : Nat) (inside : i < spans.length),
        spans[i].start.toNat = min (start.toNat + i * ceiling.toNat) 0xFFFF ∧
          (i + 1 < spans.length → spans[i].count = ceiling) ∧
          (i + 1 = spans.length → 1 ≤ spans[i].count ∧ spans[i].count ≤ ceiling)) ∧
      (start.toNat + quantity.toNat ≤ 0x10000 →
        (spans.Pairwise fun a b => a.start.toNat + a.count.toNat ≤ b.start.toNat) ∧
          (∀ address, (∃ span ∈ spans, span.Covers address) ↔
            start.toNat ≤ address ∧ address < start.toNat + quantity.toNat) ∧
          ∀ span ∈ spans, span.start.toNat + span.count.toNat ≤ 0x10000) := by
  have some : 0 < ceiling.toNat := UInt16.le_iff_toNat_le.mp positive
  have small : quantity.toNat ≤ 0xFFFF := Nat.le_of_lt_succ quantity.toNat_lt
  have address : start.toNat ≤ lastAddress := Nat.le_of_lt_succ start.toNat_lt
  have nonzero : ceiling ≠ 0 := by
    rintro rfl
    exact Nat.lt_irrefl 0 some
  have size := length_pieces some address quantity.toNat
  refine ⟨pieces ceiling.toNat start.toNat quantity.toNat, plan_eq_ok nonzero, size, sum_count_pieces some small, ?_,
    ?_⟩
  · intro i inside
    have reached : i * ceiling.toNat < quantity.toNat := (lt_ceilDiv_iff some).mp (size ▸ inside)
    have element : (pieces ceiling.toNat start.toNat quantity.toNat)[i] =
        piece ceiling.toNat start.toNat quantity.toNat i := by
      rw [List.getElem_eq_iff, getElem?_pieces some address, if_pos reached]
    have count : (piece ceiling.toNat start.toNat quantity.toNat i).count.toNat =
        min (quantity.toNat - i * ceiling.toNat) ceiling.toNat := Word.toNat_ofNat (by omega)
    rw [element, size, lt_ceilDiv_iff some]
    refine ⟨Word.toNat_ofNat (Nat.min_le_right _ _), ?_, ?_⟩
    · intro more
      rw [Nat.succ_mul] at more
      exact UInt16.toNat_inj.mp (by omega)
    · intro _
      exact ⟨UInt16.le_iff_toNat_le.mpr (by rw [count, UInt16.toNat_one]; omega), UInt16.le_iff_toNat_le.mpr (by omega)⟩
  · intro range
    have tiles := tiles_pieces some small range
    exact ⟨tiles.pairwise, fun _ => tiles.exists_covers_iff, fun span member =>
      Nat.le_trans (tiles.bounds member).2 range⟩

/-- Four addresses up to the last one in spans of three: the second span starts, and ends, at the last address. -/
theorem plan_covers_range_lastAddresses :
    (1 : UInt16) ≤ 3 ∧ (0xFFFC : UInt16).toNat + (4 : UInt16).toNat ≤ 0x10000 ∧
      ∃ spans, plan 0xFFFC 4 3 = .ok spans ∧ ∃ size : spans.length = 2,
        spans[1].start.toNat = 0xFFFF ∧
          ∀ address, (∃ span ∈ spans, span.Covers address) ↔ 0xFFFC ≤ address ∧ address < 0x10000 := by
  have positive : (1 : UInt16) ≤ 3 := by decide
  have range : (0xFFFC : UInt16).toNat + (4 : UInt16).toNat ≤ 0x10000 := by decide
  obtain ⟨spans, planned, size, -, elements, inside⟩ := plan_covers_range 0xFFFC 4 3 positive
  have two : spans.length = 2 := size
  exact ⟨positive, range, spans, planned, two, (elements 1 (two ▸ Nat.one_lt_two)).1, (inside range).2.1⟩

end Modbus.Chunk
