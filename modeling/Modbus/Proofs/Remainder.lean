import Mathlib.Algebra.GroupWithZero.Nat
import Mathlib.Data.List.Basic
import Modbus.Crc16
import Modbus.Proofs.Packing

/-! The checksum as the remainder of a division, bit by bit. A shift of the register is linear and loses nothing. So
the remainder of a sum of two messages is the sum of their remainders, and that of a message with its checksum is zero. -/
namespace Modbus

namespace Bits

theorem value_append (xs ys : List Bool) : value (xs ++ ys) = value xs + 2 ^ xs.length * value ys := by
  induction xs with
  | nil => simp [value]
  | cons x xs ih =>
    simp only [List.cons_append, value, ih, List.length_cons, Nat.pow_succ]
    rw [Nat.mul_add, Nat.add_assoc, Nat.mul_comm (2 ^ xs.length) 2, Nat.mul_assoc]

theorem value_lt {bits : List Bool} {n : Nat} (short : bits.length ≤ n) : value bits < 2 ^ n := by
  induction bits generalizing n with
  | nil => exact Nat.two_pow_pos n
  | cons b bits ih =>
    obtain ⟨n, rfl⟩ := Nat.exists_eq_add_one.mpr (Nat.lt_of_lt_of_le (Nat.succ_pos _) short)
    have rest := ih (Nat.le_of_succ_le_succ short)
    have small := b.toNat_lt
    rw [value, Nat.pow_succ]
    omega

end Bits

namespace Crc16

variable {crc : UInt16} {bits : List Bool}

/-- What comes into the register when its lowest bit goes out. -/
def feedback (crc : UInt16) : UInt16 := if crc.toNat.testBit 0 then polynomial else 0

/-- Reads bits in, one before each shift. -/
def absorb (crc : UInt16) (bits : List Bool) : UInt16 := bits.foldl (fun crc b => shift (crc ^^^ b.toUInt16)) crc

/-! One shift. -/

theorem shift_eq (crc : UInt16) : shift crc = crc >>> 1 ^^^ feedback crc := by
  have odd : crc % 2 = 1 ↔ crc.toNat.testBit 0 = true := by
    rw [← UInt16.toNat_inj, UInt16.toNat_mod, Nat.testBit_zero, decide_eq_true_eq]
    rfl
  simp only [shift, feedback, odd]
  split
  · rfl
  · exact UInt16.xor_zero.symm

theorem toNat_half (crc : UInt16) : (crc >>> 1).toNat = crc.toNat / 2 := UInt16.toNat_shiftRight crc 1

theorem feedback_xor (a b : UInt16) : feedback (a ^^^ b) = feedback a ^^^ feedback b := by
  simp only [feedback, UInt16.toNat_xor, Nat.testBit_xor]
  cases a.toNat.testBit 0 <;> cases b.toNat.testBit 0 <;> decide

theorem shift_xor (a b : UInt16) : shift (a ^^^ b) = shift a ^^^ shift b := by
  rw [shift_eq, shift_eq, shift_eq, feedback_xor, UInt16.shiftRight_xor]
  ac_rfl

/-- The highest bit of the polynomial tells what was shifted out. -/
theorem eq_zero_of_shift (clear : shift crc = 0) : crc = 0 := by
  rw [shift_eq, UInt16.xor_eq_zero_iff] at clear
  have half := congrArg UInt16.toNat clear
  have small := crc.toNat_lt
  rw [toNat_half] at half
  unfold feedback at half
  split at half
  · have high : polynomial.toNat = 0xA001 := rfl
    omega
  · next even =>
    rw [Nat.testBit_zero, decide_eq_true_eq] at even
    have zero : (0 : UInt16).toNat = 0 := rfl
    exact UInt16.toNat_inj.mp (by omega)

/-- A bit in the lowest place goes out and the others move down. -/
theorem shift_ofNat (b : Bool) {rest : Nat} (small : rest < 2 ^ 15) :
    shift (.ofNat (b.toNat + 2 * rest)) = shift b.toUInt16 ^^^ .ofNat rest := by
  have bit := b.toNat_lt
  have whole : (UInt16.ofNat (b.toNat + 2 * rest)).toNat = b.toNat + 2 * rest := Word.toNat_ofNat (by omega)
  have half : UInt16.ofNat (b.toNat + 2 * rest) >>> 1 = .ofNat rest := by
    apply UInt16.toNat_inj.mp
    rw [toNat_half, whole, Word.toNat_ofNat (by omega)]
    omega
  have low : feedback (.ofNat (b.toNat + 2 * rest)) = shift b.toUInt16 := by
    rw [feedback, whole, Nat.testBit_zero]
    cases b with
    | false => rw [if_neg (by simp)]; rfl
    | true => rw [if_pos (by simp)]; rfl
  rw [shift_eq, half, low, UInt16.xor_comm]

/-! Shifts in a row. -/

@[simp] theorem shifts_zero (n : Nat) : shifts n 0 = 0 := by
  induction n with
  | zero => rfl
  | succ n ih => exact ih

theorem shifts_xor (n : Nat) (a b : UInt16) : shifts n (a ^^^ b) = shifts n a ^^^ shifts n b := by
  induction n generalizing a b with
  | zero => rfl
  | succ n ih => rw [shifts, shifts, shifts, shift_xor, ih]

theorem shifts_eq_zero_iff {n : Nat} : shifts n crc = 0 ↔ crc = 0 := by
  constructor
  · intro clear
    induction n generalizing crc with
    | zero => exact clear
    | succ n ih => exact eq_zero_of_shift (ih clear)
  · rintro rfl
    exact shifts_zero n

/-! Bits read in. -/

theorem absorb_append (crc : UInt16) (front back : List Bool) :
    absorb crc (front ++ back) = absorb (absorb crc front) back := List.foldl_append

/-- Where no bit is set, the register is only shifted. -/
theorem absorb_clear (clear : true ∉ bits) : absorb crc bits = shifts bits.length crc := by
  induction bits generalizing crc with
  | nil => rfl
  | cons b bits ih =>
    obtain ⟨first, rest⟩ := not_or.mp (mt List.mem_cons.mpr clear)
    obtain rfl : b = false := Bool.eq_false_iff.mpr (Ne.symm first)
    calc absorb crc (false :: bits)
      _ = shifts bits.length (shift (crc ^^^ 0)) := ih rest
      _ = shifts (false :: bits).length crc := by rw [UInt16.xor_zero]; rfl

/-- Up to sixteen bits can be put into the register at once, ahead of their shifts. -/
theorem absorb_eq_shifts (short : bits.length ≤ 16) :
    absorb crc bits = shifts bits.length (crc ^^^ .ofNat (Bits.value bits)) := by
  induction bits generalizing crc with
  | nil => exact UInt16.xor_zero.symm
  | cons b bits ih =>
    have few : bits.length ≤ 15 := Nat.le_of_succ_le_succ short
    have small : Bits.value bits < 2 ^ 15 := Bits.value_lt few
    calc absorb crc (b :: bits)
      _ = shifts bits.length (shift (crc ^^^ b.toUInt16) ^^^ .ofNat (Bits.value bits)) := ih (Nat.le_succ_of_le few)
      _ = shifts bits.length (shift (crc ^^^ .ofNat (b.toNat + 2 * Bits.value bits))) := by
        rw [shift_xor, shift_xor, shift_ofNat b small, UInt16.xor_assoc]

/-! Bytes read in. -/

theorem update_eq_absorb (crc : UInt16) (byte : UInt8) : update crc byte = absorb crc (Bits.ofByte byte) := by
  have word : UInt16.ofNat byte.toNat = byte.toUInt16 :=
    UInt16.toNat_inj.mp (Word.toNat_ofNat (Nat.le_trans (Nat.le_of_lt byte.toNat_lt) (by decide)))
  rw [absorb_eq_shifts (by simp), Bits.length_ofByte, Bits.value_ofByte, word, update]

theorem foldl_update (crc : UInt16) (bytes : List UInt8) : bytes.foldl update crc = absorb crc (Bits.unpack bytes) := by
  induction bytes generalizing crc with
  | nil => rfl
  | cons byte bytes ih => rw [List.foldl_cons, ih, Bits.unpack_cons, absorb_append, update_eq_absorb]

theorem update_xor (a b : UInt16) (x y : UInt8) : update (a ^^^ b) (x ^^^ y) = update a x ^^^ update b y := by
  rw [update, update, update, ← shifts_xor, UInt8.toUInt16_xor]
  congr 1
  ac_rfl

theorem foldl_update_xor {xs ys : List UInt8} (same : xs.length = ys.length) (a b : UInt16) :
    (List.zipWith (· ^^^ ·) xs ys).foldl update (a ^^^ b) = xs.foldl update a ^^^ ys.foldl update b := by
  induction xs generalizing ys a b with
  | nil => rw [List.eq_nil_of_length_eq_zero same.symm]; rfl
  | cons x xs ih =>
    obtain ⟨y, ys, rfl⟩ := List.exists_cons_of_length_eq_add_one same.symm
    rw [List.zipWith_cons_cons, List.foldl_cons, List.foldl_cons, List.foldl_cons, update_xor]
    exact ih (Nat.succ.inj same) ..

/-- Two bytes at the end, the low one first, take away from the checksum of the others. -/
theorem compute_append_pair (body : List UInt8) (low high : UInt8) :
    compute (body ++ [low, high]) = shifts 16 (compute body ^^^ Word.ofBytes high low) := by
  have size : (Bits.unpack [low, high]).length = 16 := Bits.length_unpack _
  have value : Bits.value (Bits.unpack [low, high]) = (Word.ofBytes high low).toNat := by
    simp only [Bits.unpack, List.flatMap_cons, List.flatMap_nil, List.append_nil, Bits.value_append, Bits.value_ofByte,
      Bits.length_ofByte, Word.toNat_ofBytes]
    omega
  rw [compute, List.foldl_append, ← compute, foldl_update, absorb_eq_shifts (Nat.le_of_eq size), size, value,
    UInt16.ofNat_toNat]

/-- A frame passes exactly if it leaves no remainder; shifts lose nothing, so its last two bytes then are the checksum. -/
theorem verify_iff_compute {frame : List UInt8} : verify frame = true ↔ 2 ≤ frame.length ∧ compute frame = 0 := by
  rw [verify, Bool.and_eq_true, decide_eq_true_eq]
  refine and_congr_right fun two => ?_
  let body := frame.take (frame.length - 2)
  obtain ⟨low, high, last⟩ : ∃ low high, frame.drop (frame.length - 2) = [low, high] := by
    refine List.length_eq_two.mp ?_
    rw [List.length_drop]
    omega
  have whole : frame = body ++ [low, high] := by rw [← last, List.take_append_drop]
  have remainder : compute frame = shifts 16 (compute body ^^^ Word.ofBytes high low) := by
    rw [whole]
    exact compute_append_pair ..
  rw [remainder, shifts_eq_zero_iff, UInt16.xor_eq_zero_iff, last, beq_iff_eq]
  constructor
  · intro same
    obtain ⟨rfl, rfl⟩ : low = Word.low (compute body) ∧ high = Word.high (compute body) := by
      simpa [trailer] using same
    exact (Word.ofBytes_high_low _).symm
  · intro same
    change [low, high] = [Word.low (compute body), Word.high (compute body)]
    rw [same, Word.low_ofBytes, Word.high_ofBytes]

/-- Damage to such a frame goes unseen exactly if it leaves no remainder of its own. -/
theorem verify_damaged_iff {frame errors : List UInt8} (intact : verify frame = true)
    (size : errors.length = frame.length) :
    verify (List.zipWith (· ^^^ ·) frame errors) = true ↔ errors.foldl update 0 = 0 := by
  obtain ⟨two, passed⟩ := verify_iff_compute.mp intact
  have sum : compute (List.zipWith (· ^^^ ·) frame errors) = compute frame ^^^ errors.foldl update 0 := by
    rw [compute, compute, ← foldl_update_xor size.symm, UInt16.xor_zero]
  rw [verify_iff_compute, List.length_zipWith, size, Nat.min_self, sum, passed, UInt16.zero_xor]
  exact and_iff_right two

end Crc16

end Modbus
