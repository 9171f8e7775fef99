import Modbus.Device.Table

/-! Ranges of a table: which are mapped, what they hold, and what storing a list of values changes. Ranges
are in whole numbers, so that none of them wraps past the last address. -/
namespace Modbus

variable {α : Type}

theorem mapM_range_succ (f : Nat → Option α) (count : Nat) :
    (List.range (count + 1)).mapM f = do
      let first ← (List.range count).mapM f
      let last ← f count
      return first ++ [last] := by
  simp only [List.range_succ, List.mapM_append, List.mapM_cons, List.mapM_nil, bind_assoc, pure_bind]

/-- What is looked up index by index is there if every index has a value. -/
theorem mapM_range_eq_some_iff {f : Nat → Option α} {count : Nat} {values : List α} :
    (List.range count).mapM f = some values ↔ values.length = count ∧ ∀ i < count, values[i]? = f i := by
  induction count generalizing values with
  | zero => cases values <;> simp
  | succ count ih =>
    simp only [mapM_range_succ, Option.bind_eq_bind, Option.bind_eq_some_iff, Option.pure_def, Option.some.injEq]
    constructor
    · rintro ⟨first, hf, last, hl, rfl⟩
      obtain ⟨size, cells⟩ := ih.mp hf
      refine ⟨by simp [size], ?_⟩
      intro i hi
      by_cases small : i < count
      · rw [List.getElem?_append_left (by omega), cells i small]
      · obtain rfl : i = count := by omega
        rw [List.getElem?_append_right (by omega), size, hl]
        simp
    · rintro ⟨size, cells⟩
      obtain ⟨last, hl⟩ : ∃ last, values[count]? = some last := ⟨_, List.getElem?_eq_getElem (by omega)⟩
      refine ⟨values.take count, ih.mpr ⟨by simp [size], ?_⟩, last, (cells count (by omega)).symm.trans hl, ?_⟩
      · intro i hi
        rw [List.getElem?_take_of_lt hi]
        exact cells i (by omega)
      · obtain ⟨_, rfl⟩ := List.getElem?_eq_some_iff.mp hl
        rw [List.take_append_getElem, List.take_of_length_le (by omega)]

end Modbus

namespace Modbus.Device.Table

variable {α : Type}

/-- Every one of `count` addresses from `start` on is an address and has a cell. -/
def Maps (t : Table α) (start count : Nat) : Prop := ∀ i < count, (t.cell? (start + i)).isSome

instance (t : Table α) (start count : Nat) : Decidable (t.Maps start count) :=
  inferInstanceAs (Decidable (∀ i < count, (t.cell? (start + i)).isSome))

theorem cell?_toNat (t : Table α) (address : UInt16) : t.cell? address.toNat = t.get? address := by
  have small := address.toNat_lt
  rw [cell?, if_pos (by omega), UInt16.ofNat_toNat]

theorem lt_of_cell?_isSome {t : Table α} {address : Nat} (h : (t.cell? address).isSome) : address < 0x10000 := by
  unfold cell? at h
  split at h
  case isTrue small => exact small
  case isFalse => nomatch h

theorem maps_zero (t : Table α) (start : Nat) : t.Maps start 0 := by
  intro i hi
  exact absurd hi (Nat.not_lt_zero i)

theorem maps_one (t : Table α) (address : UInt16) : t.Maps address.toNat 1 ↔ (t.get? address).isSome := by
  rw [← cell?_toNat]
  constructor
  · intro h
    exact h 0 Nat.one_pos
  · intro h i hi
    rwa [Nat.lt_one_iff.mp hi]

theorem maps_add (t : Table α) (start m n : Nat) :
    t.Maps start (m + n) ↔ t.Maps start m ∧ t.Maps (start + m) n := by
  constructor
  · intro h
    constructor
    · intro i hi
      exact h i (by omega)
    · intro i hi
      rw [Nat.add_assoc]
      exact h (m + i) (by omega)
  · intro ⟨first, rest⟩ i hi
    by_cases small : i < m
    · exact first i small
    · have := rest (i - m) (by omega)
      rwa [Nat.add_assoc, Nat.add_sub_of_le (by omega)] at this

theorem maps_take_drop {β : Type} {t : Table α} {start : Nat} {values : List β} (h : t.Maps start values.length)
    (count : Nat) : t.Maps start (values.take count).length ∧ t.Maps (start + count) (values.drop count).length := by
  rw [List.length_take, List.length_drop]
  by_cases short : values.length ≤ count
  · rw [Nat.min_eq_right short, Nat.sub_eq_zero_of_le short]
    exact ⟨h, t.maps_zero _⟩
  · rw [Nat.min_eq_left (by omega), ← maps_add, Nat.add_sub_of_le (by omega)]
    exact h

theorem Maps.inside {t : Table α} {start count : Nat} (h : t.Maps start count) (pos : 0 < count) :
    start + count ≤ 0x10000 := by
  have := lt_of_cell?_isSome (h (count - 1) (by omega))
  omega

theorem span?_add (t : Table α) (start m n : Nat) :
    t.span? start (m + n) = do
      let first ← t.span? start m
      let rest ← t.span? (start + m) n
      return first ++ rest := by
  have split : List.range' start (m + n) = List.range' start m ++ List.range' (start + m) n := by
    rw [← List.range'_append_1]
  rw [span?, split, List.mapM_append]
  rfl

theorem span?_one (t : Table α) (start : Nat) : t.span? start 1 = (t.cell? start).map ([·]) := by
  cases h : t.cell? start <;> simp [span?, h]

/-- Exactly a mapped range has values, one for each address. -/
theorem span?_eq_some_iff {t : Table α} {start count : Nat} {values : List α} :
    t.span? start count = some values ↔
      values.length = count ∧ ∀ i < count, values[i]? = t.cell? (start + i) := by
  rw [span?, List.range'_eq_map_range, List.mapM_map, mapM_range_eq_some_iff]
  rfl

theorem length_of_span? {t : Table α} {start count : Nat} {values : List α}
    (h : t.span? start count = some values) : values.length = count := (span?_eq_some_iff.mp h).1

theorem exists_span?_iff_maps (t : Table α) (start count : Nat) :
    (∃ values, t.span? start count = some values) ↔ t.Maps start count := by
  constructor
  · rintro ⟨values, h⟩ i hi
    obtain ⟨size, cells⟩ := span?_eq_some_iff.mp h
    rw [← cells i hi, List.getElem?_eq_getElem (by omega)]
    rfl
  · intro h
    refine ⟨(List.range count).pmap (fun i hi => (t.cell? (start + i)).get (h i hi))
      (fun i hi => List.mem_range.mp hi), span?_eq_some_iff.mpr ⟨by simp, ?_⟩⟩
    intro i hi
    simp [hi]

theorem span?_eq_none_iff (t : Table α) (start count : Nat) :
    t.span? start count = none ↔ ¬ t.Maps start count := by
  rw [← exists_span?_iff_maps, Option.eq_none_iff_forall_ne_some, not_exists]

theorem isNone_span? (t : Table α) (start count : Nat) :
    (t.span? start count).isNone = true ↔ ¬ t.Maps start count := by
  rw [Option.isNone_iff_eq_none, span?_eq_none_iff]

/-! Storing. -/

theorem store_append (t : Table α) (start : UInt16) (xs ys : List α) :
    t.store start (xs ++ ys) = (t.store start xs).store (start + .ofNat xs.length) ys := by
  induction xs generalizing t start with
  | nil => simp [store]
  | cons x xs ih =>
    rw [List.cons_append, store, store, ih, List.length_cons, UInt16.ofNat_add, UInt16.add_assoc,
      UInt16.add_comm 1]
    rfl

theorem store_take_drop (t : Table α) (start count : Nat) (values : List α) :
    (t.store (.ofNat start) (values.take count)).store (.ofNat (start + count)) (values.drop count) =
      t.store (.ofNat start) values := by
  by_cases short : values.length ≤ count
  · rw [List.take_of_length_le short, List.drop_of_length_le short, store]
  · have whole := store_append t (.ofNat start) (values.take count) (values.drop count)
    rwa [List.take_append_drop, List.length_take, Nat.min_eq_left (by omega), ← UInt16.ofNat_add, Eq.comm] at whole

/-- What a store that does not run past the last address leaves in a cell. -/
theorem get?_store (t : Table α) (start : UInt16) (values : List α)
    (fits : start.toNat + values.length ≤ 0x10000) (address : UInt16) :
    (t.store start values).get? address =
      if start.toNat ≤ address.toNat ∧ address.toNat < start.toNat + values.length then
        values[address.toNat - start.toNat]?
      else t.get? address := by
  induction values generalizing t start with
  | nil => rw [store, if_neg (by simp only [List.length_nil]; omega)]
  | cons v rest ih =>
    have small := start.toNat_lt
    have step : (start + 1).toNat = (start.toNat + 1) % 65536 := by simp
    simp only [List.length_cons] at fits ⊢
    have same : start = address ↔ start.toNat = address.toNat := UInt16.toNat_inj.symm
    by_cases last : start.toNat + 1 < 0x10000
    · rw [store, ih _ _ (by omega), get?_set]
      by_cases here : start.toNat = address.toNat
      · rw [if_neg (by omega), if_pos (same.mpr here), if_pos (by omega), here, Nat.sub_self]
        rfl
      · rw [if_neg (fun h => here (same.mp h)), step, Nat.mod_eq_of_lt last]
        by_cases inside : start.toNat ≤ address.toNat ∧ address.toNat < start.toNat + (rest.length + 1)
        · have index : address.toNat - start.toNat = address.toNat - (start.toNat + 1) + 1 := by omega
          rw [if_pos (by omega), if_pos inside, index]
          rfl
        · rw [if_neg (by omega), if_neg inside]
    · obtain rfl : rest = [] := List.eq_nil_of_length_eq_zero (by omega)
      rw [store, store, get?_set]
      by_cases here : start.toNat = address.toNat
      · rw [if_pos (same.mpr here), if_pos (by simp only [List.length_nil]; omega), here, Nat.sub_self]
        rfl
      · rw [if_neg (fun h => here (same.mp h)), if_neg (by simp only [List.length_nil]; omega)]

/-- What was stored is what the range holds. -/
theorem span?_store (t : Table α) {start : UInt16} {values : List α} (fits : start.toNat + values.length ≤ 0x10000) :
    (t.store start values).span? start.toNat values.length = some values := by
  refine span?_eq_some_iff.mpr ⟨rfl, ?_⟩
  intro i hi
  have inside : start.toNat + i < 0x10000 := by omega
  have here : (UInt16.ofNat (start.toNat + i)).toNat = start.toNat + i := UInt16.toNat_ofNat_of_lt' inside
  rw [cell?, if_pos inside, get?_store _ _ _ fits, here, if_pos (by omega), Nat.add_sub_cancel_left]

theorem get?_store_of_outside (t : Table α) {start : UInt16} {values : List α}
    (fits : start.toNat + values.length ≤ 0x10000) {address : UInt16}
    (outside : address.toNat < start.toNat ∨ start.toNat + values.length ≤ address.toNat) :
    (t.store start values).get? address = t.get? address := by
  rw [get?_store _ _ _ fits, if_neg (by omega)]

theorem maps_set {t : Table α} {start count : Nat} (h : t.Maps start count) (address : UInt16) (value : α) :
    (t.set address value).Maps start count := by
  intro i hi
  have mapped := h i hi
  unfold cell? at mapped ⊢
  split
  case isTrue small =>
    rw [if_pos small] at mapped
    rw [get?_set]
    split
    · rfl
    · exact mapped
  case isFalse large => rw [if_neg large] at mapped; exact mapped

theorem maps_store {t : Table α} {start count : Nat} (h : t.Maps start count) (address : UInt16)
    (values : List α) : (t.store address values).Maps start count := by
  induction values generalizing t address with
  | nil => exact h
  | cons v rest ih => exact ih (maps_set h address v) (address + 1)

theorem store_comm (t : Table α) {a b : UInt16} {xs ys : List α} (fitsLeft : a.toNat + xs.length ≤ 0x10000)
    (fitsRight : b.toNat + ys.length ≤ 0x10000)
    (apart : a.toNat + xs.length ≤ b.toNat ∨ b.toNat + ys.length ≤ a.toNat) :
    (t.store a xs).store b ys = (t.store b ys).store a xs := by
  apply ext
  intro address
  simp only [get?_store _ _ _ fitsLeft, get?_store _ _ _ fitsRight]
  by_cases left : a.toNat ≤ address.toNat ∧ address.toNat < a.toNat + xs.length
  · rw [if_neg (by omega), if_pos left, if_pos left]
  · rw [if_neg left, if_neg left]

end Modbus.Device.Table
