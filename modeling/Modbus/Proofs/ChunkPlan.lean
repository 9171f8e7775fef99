import Mathlib.Algebra.GroupWithZero.Nat
import Modbus.Chunk
import Modbus.Word
import Modbus.Proofs.Table

/-! What a plan covers. Inside the address space the spans of a plan tile its range, so looking them up one by
one is looking the range up. Past its end the spans stay at the last address, where only a span of one cell
can be looked up. -/
namespace Modbus.Chunk

open Device (Table)

/-- The spans of a plan, first one first. -/
def pieces (ceiling start remaining : Nat) : List Span :=
  if 0 < ceiling ∧ 0 < remaining then
    ⟨.ofNat start, .ofNat (min remaining ceiling)⟩ ::
      pieces ceiling (min (start + min remaining ceiling) lastAddress) (remaining - min remaining ceiling)
  else []
  termination_by remaining

theorem pieces_zero (ceiling start : Nat) : pieces ceiling start 0 = [] := by
  rw [pieces, if_neg (by omega)]

theorem pieces_pos {ceiling start remaining : Nat} (positive : 0 < ceiling) (more : 0 < remaining) :
    pieces ceiling start remaining =
      ⟨.ofNat start, .ofNat (min remaining ceiling)⟩ ::
        pieces ceiling (min (start + min remaining ceiling) lastAddress) (remaining - min remaining ceiling) := by
  rw [pieces, if_pos ⟨positive, more⟩]

theorem toList_split (ceiling start remaining : Nat) (spans : Array Span) :
    (split ceiling start remaining spans).toList = spans.toList ++ pieces ceiling start remaining := by
  fun_induction split ceiling start remaining spans with
  | case1 start remaining spans more count ih =>
    rw [ih, pieces_pos more.1 more.2, Array.toList_push, List.append_assoc]
    rfl
  | case2 start remaining spans done => rw [pieces, if_neg done, List.append_nil]

theorem plan_eq_ok {start quantity ceiling : UInt16} (positive : ceiling ≠ 0) :
    plan start quantity ceiling = .ok (pieces ceiling.toNat start.toNat quantity.toNat) := by
  rw [plan, if_neg positive, toList_split]
  rfl

theorem count_of_mem_pieces {ceiling start remaining : Nat} (small : remaining ≤ 0xFFFF) {span : Span}
    (member : span ∈ pieces ceiling start remaining) : 0 < span.count.toNat ∧ span.count.toNat ≤ ceiling := by
  fun_induction pieces ceiling start remaining with
  | case1 start remaining more ih =>
    rcases List.mem_cons.mp member with rfl | later
    · rw [Word.toNat_ofNat (by omega)]
      omega
    · exact ih (by omega) later
  | case2 => nomatch member

/-- A plan names as many addresses as were asked for, also past the last one. -/
theorem sum_count_pieces {ceiling start remaining : Nat} (positive : 0 < ceiling) (small : remaining ≤ 0xFFFF) :
    ((pieces ceiling start remaining).map (·.count.toNat)).sum = remaining := by
  fun_induction pieces ceiling start remaining with
  | case1 start remaining more ih =>
    rw [List.map_cons, List.sum_cons, ih (by omega), Word.toNat_ofNat (by omega)]
    omega
  | case2 start remaining done => rw [List.map_nil, List.sum_nil]; omega

/-- Spans one after another, from `start` up to `stop`. -/
inductive Tiles : Nat → List Span → Nat → Prop where
  | nil (start : Nat) : Tiles start [] start
  | cons {start stop : Nat} {span : Span} {spans : List Span} :
      span.start.toNat = start → Tiles (start + span.count.toNat) spans stop → Tiles start (span :: spans) stop

theorem tiles_pieces {ceiling start remaining : Nat} (positive : 0 < ceiling) (small : remaining ≤ 0xFFFF)
    (inside : start + remaining ≤ 0x10000) : Tiles start (pieces ceiling start remaining) (start + remaining) := by
  induction remaining using Nat.strongRecOn generalizing start with
  | ind remaining ih =>
    by_cases done : remaining = 0
    · subst done
      rw [pieces_zero]
      exact .nil start
    · rw [pieces_pos positive (by omega)]
      refine .cons (Word.toNat_ofNat (by omega)) ?_
      rw [Word.toNat_ofNat (by omega)]
      by_cases last : remaining ≤ ceiling
      · rw [Nat.min_eq_left last, Nat.sub_self, pieces_zero]
        exact .nil _
      · have next : start + ceiling ≤ lastAddress := by
          unfold lastAddress
          omega
        have total : start + ceiling + (remaining - ceiling) = start + remaining := by omega
        have rest : Tiles (start + ceiling) _ (start + ceiling + (remaining - ceiling)) :=
          ih (remaining - ceiling) (by omega) (by omega) (by omega)
        rw [Nat.min_eq_right (by omega), Nat.min_eq_left next]
        rwa [total] at rest

def lookUp {α : Type} (t : Table α) : List Span → Option (List α)
  | [] => some []
  | span :: spans => do
    let first ← t.span? span.start.toNat span.count.toNat
    let rest ← lookUp t spans
    return first ++ rest

theorem Tiles.le {start stop : Nat} {spans : List Span} (tiles : Tiles start spans stop) : start ≤ stop := by
  induction tiles with
  | nil => exact Nat.le_refl _
  | cons _ _ ih => omega

/-- Tiles together hold what their range holds. -/
theorem lookUp_of_tiles {α : Type} (t : Table α) {start stop : Nat} {spans : List Span}
    (tiles : Tiles start spans stop) : lookUp t spans = t.span? start (stop - start) := by
  induction tiles with
  | nil start => rw [Nat.sub_self]; rfl
  | cons here rest ih =>
    have order := rest.le
    rw [lookUp, ih, here, ← Table.span?_add]
    congr 1
    omega

/-! Past the end. -/

variable {α : Type} {ceiling start remaining : Nat} {values : List α}

theorem lookUp_pieces_iff (t : Table α) (positive : 0 < ceiling) (some : 0 < remaining) (small : remaining ≤ 0xFFFF)
    (address : start ≤ lastAddress) :
    lookUp t (pieces ceiling start remaining) = .some values ↔
      ∃ first rest, t.span? start (min remaining ceiling) = .some first ∧
        lookUp t (pieces ceiling (min (start + min remaining ceiling) lastAddress) (remaining - min remaining ceiling)) =
          .some rest ∧ values = first ++ rest := by
  rw [pieces_pos positive some, lookUp, Word.toNat_ofNat address, Word.toNat_ofNat (by omega)]
  simp only [Option.bind_eq_bind, Option.bind_eq_some_iff, Option.pure_def, Option.some.injEq]
  constructor
  · rintro ⟨first, here, rest, later, rfl⟩
    exact ⟨first, rest, here, later, rfl⟩
  · rintro ⟨first, rest, here, later, rfl⟩
    exact ⟨first, here, rest, later, rfl⟩

theorem span?_last (t : Table α) {count : Nat} (some : 0 < count) :
    t.span? lastAddress count = .some values ↔ count = 1 ∧ ∃ last, t.get? 0xFFFF = .some last ∧ values = [last] := by
  by_cases one : count = 1
  · subst one
    have cell : t.cell? lastAddress = t.get? 0xFFFF := t.cell?_toNat 0xFFFF
    rw [Table.span?_one, cell, Option.map_eq_some_iff]
    constructor
    · rintro ⟨last, found, same⟩
      exact ⟨rfl, last, found, same.symm⟩
    · rintro ⟨-, last, found, same⟩
      exact ⟨last, found, same.symm⟩
  · constructor
    · intro found
      have inside := ((t.exists_span?_iff_maps _ _).mp ⟨values, found⟩).inside some
      unfold lastAddress at inside
      omega
    · rintro ⟨one', _⟩
      exact absurd one' one

theorem span?_through_last (t : Table α) (address : start ≤ 0xFFFF) :
    t.span? start (0xFFFF - start + 1) = some values ↔
      ∃ before last, t.span? start (0xFFFF - start) = some before ∧ t.get? 0xFFFF = some last ∧
        values = before ++ [last] := by
  have here : start + (0xFFFF - start) = lastAddress := Nat.add_sub_of_le address
  rw [Table.span?_add, here]
  simp only [Option.bind_eq_bind, Option.bind_eq_some_iff, Option.pure_def, Option.some.injEq,
    span?_last t Nat.one_pos, true_and]
  constructor
  · rintro ⟨before, hb, _, ⟨last, found, rfl⟩, rfl⟩
    exact ⟨before, last, hb, found, rfl⟩
  · rintro ⟨before, last, hb, found, rfl⟩
    exact ⟨before, hb, [last], ⟨last, found, rfl⟩, rfl⟩

/-- At the last address a plan finds the last cell again and again, as long as its spans have one cell. -/
theorem lookUp_pieces_last (t : Table α) (positive : 0 < ceiling) (some : 0 < remaining) (small : remaining ≤ 0xFFFF) :
    lookUp t (pieces ceiling lastAddress remaining) = .some values ↔
      (ceiling = 1 ∨ remaining = 1) ∧
        ∃ last, t.get? 0xFFFF = .some last ∧ values = List.replicate remaining last := by
  induction remaining using Nat.strongRecOn generalizing values with
  | ind remaining ih =>
    have count : 0 < min remaining ceiling := by omega
    have stays : min (lastAddress + min remaining ceiling) lastAddress = lastAddress :=
      Nat.min_eq_right (Nat.le_add_right _ _)
    rw [lookUp_pieces_iff t positive some small (Nat.le_refl _), stays]
    simp only [span?_last t count]
    by_cases only : remaining = 1
    · subst only
      have one : min 1 ceiling = 1 := by omega
      simp only [one, Nat.sub_self, pieces_zero, lookUp, Option.some.injEq]
      constructor
      · rintro ⟨_, _, ⟨_, last, found, rfl⟩, rfl, rfl⟩
        exact ⟨.inr trivial, last, found, rfl⟩
      · rintro ⟨_, last, found, rfl⟩
        exact ⟨[last], [], ⟨trivial, last, found, rfl⟩, rfl, rfl⟩
    · by_cases one : ceiling = 1
      · subst one
        have single : min remaining 1 = 1 := by omega
        have less : remaining - 1 + 1 = remaining := by omega
        have step (last : α) : List.replicate remaining last = [last] ++ List.replicate (remaining - 1) last := by
          rw [List.singleton_append, ← List.replicate_succ, less]
        simp only [single, ih (remaining - 1) (by omega) (by omega) (by omega), true_or, true_and, step]
        constructor
        · rintro ⟨_, _, ⟨last, found, rfl⟩, ⟨last', found', rfl⟩, rfl⟩
          obtain rfl : last = last' := Option.some.inj (found.symm.trans found')
          exact ⟨last, found, rfl⟩
        · rintro ⟨last, found, rfl⟩
          exact ⟨[last], _, ⟨last, found, rfl⟩, ⟨last, found, rfl⟩, rfl⟩
      · constructor
        · rintro ⟨_, _, ⟨size, _⟩, _⟩
          omega
        · rintro ⟨one' | only', _⟩ <;> omega

/-- A span that ends before the last address holds the front of what a plan past the end finds. -/
theorem span?_before_last (t : Table α) (early : start + ceiling ≤ 0xFFFF) :
    t.span? start (0xFFFF - start) = some values ↔
      ∃ first rest, t.span? start ceiling = some first ∧
        t.span? (start + ceiling) (0xFFFF - (start + ceiling)) = some rest ∧ values = first ++ rest := by
  have size : 0xFFFF - start = ceiling + (0xFFFF - (start + ceiling)) := by omega
  rw [size, Table.span?_add]
  simp only [Option.bind_eq_bind, Option.bind_eq_some_iff, Option.pure_def, Option.some.injEq]
  constructor
  · rintro ⟨first, hf, rest, hr, rfl⟩
    exact ⟨first, rest, hf, hr, rfl⟩
  · rintro ⟨first, rest, hf, hr, rfl⟩
    exact ⟨first, hf, rest, hr, rfl⟩

/-- A plan past the end finds values exactly if all its spans after the last address have one cell, and then
it finds the last cell in their place. -/
theorem lookUp_pieces_past (t : Table α) (positive : 0 < ceiling) (small : remaining ≤ 0xFFFF)
    (address : start ≤ 0xFFFF) (past : 0x10000 < start + remaining) :
    lookUp t (pieces ceiling start remaining) = some values ↔
      (ceiling = 1 ∨ start + remaining = 0x10001 ∧ ceiling ∣ 0x10000 - start) ∧
        ∃ before last, t.span? start (0xFFFF - start) = some before ∧ t.get? 0xFFFF = some last ∧
          values = before ++ List.replicate (start + remaining - 0xFFFF) last := by
  induction remaining using Nat.strongRecOn generalizing start values with
  | ind remaining ih =>
    rw [lookUp_pieces_iff t positive (by omega) small address]
    by_cases early : start + ceiling ≤ 0xFFFF
    · -- The span ends before the last address: what it holds is the front of `before`.
      have count : min remaining ceiling = ceiling := by omega
      have next : min (start + ceiling) lastAddress = start + ceiling := Nat.min_eq_left early
      have total : start + ceiling + (remaining - ceiling) = start + remaining := by omega
      have gap : 0x10000 - start = ceiling + (0x10000 - (start + ceiling)) := by omega
      have divides : ceiling ∣ 0x10000 - start ↔ ceiling ∣ 0x10000 - (start + ceiling) := by
        rw [gap]
        exact Nat.dvd_add_right (Nat.dvd_refl ceiling)
      rw [count, next, divides]
      simp only [ih (remaining - ceiling) (by omega) (by omega) early (by omega), total, span?_before_last t early]
      constructor
      · rintro ⟨first, _, hf, ⟨shape, rest, last, hr, found, rfl⟩, rfl⟩
        exact ⟨shape, first ++ rest, last, ⟨first, rest, hf, hr, rfl⟩, found, (List.append_assoc ..).symm⟩
      · rintro ⟨shape, _, last, ⟨first, rest, hf, hr, rfl⟩, found, rfl⟩
        exact ⟨first, _, hf, ⟨shape, rest, last, hr, found, rfl⟩, List.append_assoc ..⟩
    · by_cases exact : start + ceiling = 0x10000
      · -- The span ends with the last address, and all later ones stay there.
        have count : min remaining ceiling = ceiling := by omega
        have size : ceiling = 0xFFFF - start + 1 := by omega
        have next : min (start + ceiling) lastAddress = lastAddress := by
          unfold lastAddress
          omega
        have left : 0 < remaining - ceiling := by omega
        have whole : ceiling ∣ 0x10000 - start := ⟨1, by omega⟩
        have only : remaining - ceiling = 1 ↔ start + remaining = 0x10001 := by omega
        have range (values : List α) : t.span? start ceiling = some values ↔
            ∃ before last, t.span? start (0xFFFF - start) = some before ∧ t.get? 0xFFFF = some last ∧
              values = before ++ [last] := by
          rw [size]
          exact span?_through_last t address
        have copies (last : α) : List.replicate (start + remaining - 0xFFFF) last =
            [last] ++ List.replicate (remaining - ceiling) last := by
          have more : start + remaining - 0xFFFF = remaining - ceiling + 1 := by omega
          rw [more, List.replicate_succ, List.singleton_append]
        rw [count, next]
        simp only [range, lookUp_pieces_last t positive left (by omega), only, and_iff_left whole, copies]
        constructor
        · rintro ⟨_, _, ⟨before, last, hb, found, rfl⟩, ⟨shape, last', found', rfl⟩, rfl⟩
          obtain rfl : last = last' := Option.some.inj (found.symm.trans found')
          exact ⟨shape, before, last, hb, found, List.append_assoc ..⟩
        · rintro ⟨shape, before, last, hb, found, rfl⟩
          exact ⟨_, _, ⟨before, last, hb, found, rfl⟩, ⟨shape, last, found, rfl⟩, (List.append_assoc ..).symm⟩
      · -- The span goes past the last address, so it finds nothing, and no such ceiling fits the range.
        constructor
        · rintro ⟨first, _, hf, _⟩
          have := ((t.exists_span?_iff_maps _ _).mp ⟨first, hf⟩).inside (by omega)
          omega
        · rintro ⟨one | ⟨_, divides⟩, _⟩
          · omega
          · have := Nat.le_of_dvd (by omega) divides
            omega

end Modbus.Chunk
