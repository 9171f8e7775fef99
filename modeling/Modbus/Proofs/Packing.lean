import Modbus.Bits

/-! Packed coils read back as they were, followed by the zeros that fill up the last byte. -/
namespace Modbus.Bits

theorem testBit_value (bits : List Bool) (i : Nat) : (value bits).testBit i = bits.getD i false := by
  induction bits generalizing i with
  | nil => simp [value]
  | cons b bits ih =>
    cases i with
    | zero => cases b <;> simp [value, Nat.testBit_zero, Nat.add_mod]
    | succ i =>
      have half : (b.toNat + 2 * value bits) / 2 = value bits := by
        have small := b.toNat_lt
        omega
      rw [value, Nat.testBit_succ, half, ih]
      rfl

theorem value_pos_iff {bits : List Bool} : 0 < value bits ↔ true ∈ bits := by
  induction bits with
  | nil => simp [value]
  | cons b bits ih =>
    cases b with
    | false => simp [value, ih]
    | true => simp [value, Nat.add_comm 1]

@[simp] theorem length_ofByte (byte : UInt8) : (ofByte byte).length = 8 := by simp [ofByte]

@[simp] theorem value_ofByte (byte : UInt8) : value (ofByte byte) = byte.toNat := by
  apply Nat.eq_of_testBit_eq
  intro i
  rw [testBit_value, List.getD_eq_getElem?_getD]
  by_cases small : i < 8
  · simp [ofByte, small]
  · have clear : byte.toNat.testBit i = false :=
      Nat.testBit_lt_two_pow (Nat.lt_of_lt_of_le byte.toNat_lt (Nat.pow_le_pow_right (by decide) (by omega)))
    simp [ofByte, small, clear]

theorem ofByte_ofNat_value (bits : List Bool) (short : bits.length ≤ 8) :
    ofByte (.ofNat (value bits)) = bits ++ List.replicate (8 - bits.length) false := by
  apply List.ext_getElem
  · simp; omega
  · intro i hi _
    have small : i < 8 := by simpa using hi
    have bit : (value bits % 2 ^ 8).testBit i = bits.getD i false := by
      rw [Nat.testBit_mod_two_pow, testBit_value]
      simp [small]
    simp only [ofByte, List.getElem_map, List.getElem_range, UInt8.toNat_ofNat', bit, List.getElem_append,
      List.getElem_replicate, List.getD_eq_getElem?_getD]
    split
    case isTrue inside => simp [inside]
    case isFalse outside => simp [List.getElem?_eq_none (Nat.le_of_not_lt outside)]

theorem unpack_cons (byte : UInt8) (bytes : List UInt8) : unpack (byte :: bytes) = ofByte byte ++ unpack bytes := rfl

theorem true_mem_unpack_iff {bytes : List UInt8} : true ∈ unpack bytes ↔ ∃ byte ∈ bytes, byte ≠ 0 := by
  have some (byte : UInt8) : true ∈ ofByte byte ↔ byte ≠ 0 := by
    rw [← value_pos_iff, value_ofByte, Nat.pos_iff_ne_zero]
    exact not_congr (@UInt8.toNat_inj byte 0)
  simp only [unpack, List.mem_flatMap, some]

theorem unpack_pack (bits : List Bool) :
    unpack (pack bits) = bits ++ List.replicate (8 * byteCount bits.length - bits.length) false := by
  fun_induction pack bits with
  | case1 => rfl
  | case2 b bs ih =>
    rw [unpack_cons, ih, ofByte_ofNat_value _ (by simp only [List.length_cons, List.length_take]; omega)]
    by_cases long : 7 ≤ bs.length
    · have whole : 8 - (b :: bs.take 7).length = 0 := by
        simp only [List.length_cons, List.length_take]; omega
      have rest : 8 * byteCount (bs.drop 7).length - (bs.drop 7).length =
          8 * byteCount (b :: bs).length - (b :: bs).length := by
        simp only [byteCount, List.length_drop, List.length_cons]; omega
      rw [whole, rest, List.replicate_zero, List.append_nil, List.cons_append, ← List.append_assoc,
        List.take_append_drop, List.cons_append]
    · have none : bs.drop 7 = [] := List.drop_eq_nil_of_le (by omega)
      have all : bs.take 7 = bs := List.take_of_length_le (by omega)
      have fill : 8 - (b :: bs).length = 8 * byteCount (b :: bs).length - (b :: bs).length := by
        simp only [byteCount, List.length_cons]; omega
      rw [none, all, fill]
      simp [byteCount]

theorem take_unpack_pack (bits : List Bool) : (unpack (pack bits)).take bits.length = bits := by
  rw [unpack_pack, List.take_left']
  rfl

/-- Eight bits stand in each byte, the first in the least significant place. -/
theorem getElem?_unpack (bytes : List UInt8) (i : Nat) :
    (unpack bytes)[i]? = bytes[i / 8]?.map fun byte => byte.toNat.testBit (i % 8) := by
  induction bytes generalizing i with
  | nil => rfl
  | cons byte bytes ih =>
    rw [unpack_cons]
    by_cases first : i < 8
    · rw [List.getElem?_append_left (by simpa using first), Nat.div_eq_of_lt first, Nat.mod_eq_of_lt first]
      simp [ofByte, first]
    · have later : i / 8 = (i - 8) / 8 + 1 := by omega
      have place : (i - 8) % 8 = i % 8 := by omega
      rw [List.getElem?_append_right (by simpa using first), length_ofByte, ih, later, place, List.getElem?_cons_succ]

theorem unpack_append (xs ys : List UInt8) : unpack (xs ++ ys) = unpack xs ++ unpack ys := List.flatMap_append

/-- Each byte is made of the next eight bits, or of what is left of them. -/
theorem getElem?_pack {bits : List Bool} {i : Nat} (inside : 8 * i < bits.length) :
    (pack bits)[i]? = some (.ofNat (value ((bits.drop (8 * i)).take 8))) := by
  fun_induction pack bits generalizing i with
  | case1 => exact absurd inside (Nat.not_lt_zero _)
  | case2 b bs ih =>
    cases i with
    | zero => rfl
    | succ i =>
      rw [List.length_cons] at inside
      rw [List.getElem?_cons_succ, ih (by rw [List.length_drop]; omega), List.drop_drop,
        show 8 * (i + 1) = 7 + 8 * i + 1 by omega, List.drop_succ_cons]

theorem drop_unpack (bytes : List UInt8) (n : Nat) : (unpack bytes).drop (8 * n) = unpack (bytes.drop n) := by
  induction bytes generalizing n with
  | nil => simp [unpack]
  | cons byte bytes ih =>
    cases n with
    | zero => rfl
    | succ n =>
      rw [unpack_cons, List.drop_succ_cons, ← ih, show 8 * (n + 1) = (ofByte byte).length + 8 * n by simp; omega,
        List.drop_length_add_append]

end Modbus.Bits
