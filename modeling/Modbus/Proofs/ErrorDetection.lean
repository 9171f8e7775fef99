import Modbus.Proofs.Decoding
import Modbus.Proofs.Remainder

/-! Damage to a serial frame that its checksum always shows: up to sixteen bits in a row, and up to three bits anywhere.
Damage goes unseen exactly if its own remainder is zero. A short row of bits fits into the register, an odd number of
bits leaves an odd number of ones there, and two bits would have to be as far apart as the register takes to come back
to where it was, which is further than a frame is long. -/
namespace Modbus

namespace Crc16

variable {crc : UInt16} {bits : List Bool}

/-- All ones lie within sixteen places in a row. -/
def Burst (bits : List Bool) : Prop := ∃ start, true ∉ bits.take start ∧ true ∉ bits.drop (start + 16)

/-- The register is empty before the burst and holds all of it afterwards. -/
theorem absorb_burst (burst : Burst bits) (damaged : true ∈ bits) : absorb 0 bits ≠ 0 := by
  obtain ⟨start, before, after⟩ := burst
  let window := (bits.drop start).take 16
  have parts : bits = bits.take start ++ (window ++ bits.drop (start + 16)) := by
    rw [← List.drop_drop, List.take_append_drop, List.take_append_drop]
  have short : window.length ≤ 16 := List.length_take_le ..
  have set : true ∈ window := by
    rw [parts, List.mem_append, List.mem_append] at damaged
    exact (damaged.resolve_left before).resolve_right after
  have small : Bits.value window < 2 ^ 16 := Bits.value_lt short
  rw [parts, absorb_append, absorb_append, absorb_clear before, shifts_zero, absorb_eq_shifts short, absorb_clear after,
    UInt16.zero_xor, Ne, shifts_eq_zero_iff, shifts_eq_zero_iff]
  intro unseen
  have value := congrArg UInt16.toNat unseen
  rw [Word.toNat_ofNat (Nat.le_of_lt_succ small)] at value
  exact Nat.ne_of_gt (Bits.value_pos_iff.mpr set) value

/-! Odd numbers of bits. -/

/-- Whether an odd number of the lowest `n` binary digits are ones. -/
def oddOnes : Nat → Nat → Bool
  | 0, _ => false
  | n + 1, x => x.testBit 0 ^^ oddOnes n (x >>> 1)

def parity (crc : UInt16) : Bool := oddOnes 16 crc.toNat

theorem oddOnes_xor (n a b : Nat) : oddOnes n (a ^^^ b) = (oddOnes n a ^^ oddOnes n b) := by
  induction n generalizing a b with
  | zero => rfl
  | succ n ih =>
    simp only [oddOnes, Nat.testBit_xor, Nat.shiftRight_xor_distrib, ih, Bool.xor_assoc, Bool.xor_left_comm]

theorem oddOnes_succ {n x : Nat} (small : x < 2 ^ n) : oddOnes (n + 1) x = oddOnes n x := by
  induction n generalizing x with
  | zero =>
    obtain rfl : x = 0 := Nat.lt_one_iff.mp small
    rfl
  | succ n ih =>
    have half : x >>> 1 < 2 ^ n := by
      rw [Nat.shiftRight_eq_div_pow, Nat.pow_one]
      rw [Nat.pow_succ] at small
      omega
    rw [oddOnes, ih half, oddOnes]

theorem parity_xor (a b : UInt16) : parity (a ^^^ b) = (parity a ^^ parity b) := by
  rw [parity, UInt16.toNat_xor, oddOnes_xor, parity, parity]

/-- The polynomial brings in as many ones as went out, up to an even number. -/
theorem parity_shift (crc : UInt16) : parity (shift crc) = parity crc := by
  have rest : parity (crc >>> 1) = oddOnes 15 (crc.toNat >>> 1) := by
    refine oddOnes_succ ?_
    have small := crc.toNat_lt
    rw [toNat_half]
    omega
  have back : parity (feedback crc) = crc.toNat.testBit 0 := by
    unfold feedback
    cases crc.toNat.testBit 0 <;> decide
  rw [shift_eq, parity_xor, rest, back, Bool.xor_comm]
  rfl

theorem odd_count_cons (b : Bool) (bits : List Bool) :
    decide ((b :: bits).count true % 2 = 1) = (b ^^ decide (bits.count true % 2 = 1)) := by
  cases b with
  | false => simp
  | true =>
    rw [List.count_cons_self, Bool.true_xor, ← decide_not, decide_eq_decide]
    omega

theorem parity_absorb (crc : UInt16) (bits : List Bool) :
    parity (absorb crc bits) = (parity crc ^^ decide (bits.count true % 2 = 1)) := by
  induction bits generalizing crc with
  | nil => simp [absorb]
  | cons b bits ih =>
    have first : parity b.toUInt16 = b := by cases b <;> decide
    calc parity (absorb crc (b :: bits))
      _ = (parity (shift (crc ^^^ b.toUInt16)) ^^ decide (bits.count true % 2 = 1)) := ih _
      _ = (parity crc ^^ decide ((b :: bits).count true % 2 = 1)) := by
        rw [parity_shift, parity_xor, first, Bool.xor_assoc, odd_count_cons]

theorem absorb_odd (odd : bits.count true % 2 = 1) : absorb 0 bits ≠ 0 := by
  intro unseen
  have parities := parity_absorb 0 bits
  rw [unseen, odd] at parities
  nomatch parities

/-! Two bits. -/

/-- Whether none of the next `n` shifts leads to 1. -/
def staysOff : Nat → UInt16 → Bool
  | 0, _ => true
  | n + 1, crc => shift crc != 1 && staysOff n (shift crc)

theorem shifts_ne_one {n : Nat} (off : staysOff n crc = true) {d : Nat} (near : d < n) : shifts (d + 1) crc ≠ 1 := by
  induction d generalizing n crc with
  | zero =>
    obtain ⟨n, rfl⟩ := Nat.exists_eq_add_one.mpr near
    rw [staysOff, Bool.and_eq_true, bne_iff_ne] at off
    exact off.1
  | succ d ih =>
    obtain ⟨n, rfl⟩ := Nat.exists_eq_add_one.mpr (Nat.zero_lt_of_lt near)
    rw [staysOff, Bool.and_eq_true] at off
    exact ih off.2 (Nat.lt_of_succ_lt_succ near)

/-- The register does not come back to 1 within a frame. -/
theorem staysOff_one : staysOff 2047 1 = true := by decide +kernel

/-- Up to the first one the register is only shifted. -/
theorem exists_absorb_of_mem (damaged : true ∈ bits) : ∃ front back, bits = front ++ true :: back ∧
    bits.count true = back.count true + 1 ∧
      ∀ crc, absorb crc bits = absorb (shift (shifts front.length crc ^^^ 1)) back := by
  obtain ⟨front, back, rfl, clear⟩ := List.eq_append_cons_of_mem damaged
  refine ⟨front, back, rfl, ?_, fun crc => ?_⟩
  · rw [List.count_append, List.count_eq_zero.mpr clear, List.count_cons_self, Nat.zero_add]
  · rw [absorb_append, absorb_clear clear]
    rfl

/-- The first one is shifted up to the second, which would have to meet it there as it was. -/
theorem absorb_two (two : bits.count true = 2) (short : bits.length ≤ 2048) : absorb 0 bits ≠ 0 := by
  have first : true ∈ bits := List.count_pos_iff.mp (by omega)
  obtain ⟨before, rest, rfl, count, after⟩ := exists_absorb_of_mem first
  have second : true ∈ rest := List.count_pos_iff.mp (by omega)
  obtain ⟨between, back, rfl, others, last⟩ := exists_absorb_of_mem second
  have clear : true ∉ back := List.count_eq_zero.mp (by omega)
  have near : between.length < 2047 := by
    simp only [List.length_append, List.length_cons] at short
    omega
  rw [after, last, absorb_clear clear, shifts_zero, UInt16.zero_xor, Ne, shifts_eq_zero_iff]
  intro unseen
  exact shifts_ne_one staysOff_one near (UInt16.xor_eq_zero_iff.mp (eq_zero_of_shift unseen))

/-- A burst or up to three ones, in as many bits as a frame has at most, leave a remainder. -/
theorem absorb_ne_zero (damaged : true ∈ bits) (short : bits.length ≤ 2048)
    (few : Burst bits ∨ bits.count true ≤ 3) : absorb 0 bits ≠ 0 := by
  rcases few with burst | few
  · exact absorb_burst burst damaged
  · have pos := List.count_pos_iff.mpr damaged
    by_cases two : bits.count true = 2
    · exact absorb_two two short
    · exact absorb_odd (by omega)

/-- The polynomial itself, with four ones in seventeen places, leaves none. -/
example : ([0x03, 0x40, 0x01] : List UInt8).foldl update 0 = 0 := by decide +kernel

end Crc16

namespace Rtu

variable {frame errors : List UInt8} {adu : Adu}

theorem decode_of_not_verify (long : minFrameSize ≤ frame.length) (most : frame.length ≤ maxFrameSize)
    (failed : ¬ Crc16.verify frame = true) : decode frame = .error .rtuChecksum := by
  rw [decode, if_neg (Nat.not_lt_of_le long), if_neg (Nat.not_lt_of_le most), eq_false_of_ne_true failed]
  rfl

/-- No frame that was accepted is accepted with such damage, wherever in the frame it is. -/
theorem decode_of_damaged (accepted : decode frame = .ok adu) (size : errors.length = frame.length)
    (damaged : ∃ byte ∈ errors, byte ≠ 0)
    (few : Crc16.Burst (Bits.unpack errors) ∨ (Bits.unpack errors).count true ≤ 3) :
    decode (List.zipWith (· ^^^ ·) frame errors) = .error .rtuChecksum := by
  obtain ⟨pos, rfl⟩ := encode_of_decode accepted
  have long := @length_encode adu.slave adu.pdu
  have fits : adu.pdu.bytes.length ≤ 253 := adu.pdu.length_le
  have same : (List.zipWith (· ^^^ ·) (encode adu.slave adu.pdu) errors).length = adu.pdu.bytes.length + 3 := by
    rw [List.length_zipWith, size, long, Nat.min_self]
  have intact : Crc16.verify (encode adu.slave adu.pdu) = true := Crc16.verify_append_trailer _
  refine decode_of_not_verify (by unfold minFrameSize; omega) (by unfold maxFrameSize; omega) ?_
  rw [Crc16.verify_damaged_iff intact size, Crc16.foldl_update]
  refine Crc16.absorb_ne_zero (Bits.true_mem_unpack_iff.mpr damaged) ?_ few
  rw [Bits.length_unpack, size, long]
  omega

/-- Sixteen bits in a row, from the last one of a register into the checksum, and three bits far apart. -/
theorem decode_of_damaged_answer :
    let pdu : Pdu := ⟨[0x03, 0x02, 0x00, 0x07], by decide⟩
    let answer : List UInt8 := [0x01, 0x03, 0x02, 0x00, 0x07, 0xF9, 0x86]
    let row : List UInt8 := [0, 0, 0, 0, 0x80, 0xFF, 0x7F]
    let spread : List UInt8 := [0x01, 0, 0, 0x10, 0, 0, 0x80]
    decode answer = .ok ⟨1, pdu⟩ ∧ Crc16.Burst (Bits.unpack row) ∧ (Bits.unpack row).count true = 16 ∧
      (Bits.unpack spread).count true = 3 ∧
        decode (List.zipWith (· ^^^ ·) answer row) = .error .rtuChecksum ∧
          decode (List.zipWith (· ^^^ ·) answer spread) = .error .rtuChecksum := by
  intro pdu answer row spread
  have encoded : encode 1 pdu = answer := by decide +kernel
  have accepted : decode answer = .ok ⟨1, pdu⟩ := encoded ▸ decode_encode (by decide)
  have burst : Crc16.Burst (Bits.unpack row) := ⟨39, by decide +kernel, by decide +kernel⟩
  have three : (Bits.unpack spread).count true = 3 := by decide +kernel
  refine ⟨accepted, burst, by decide +kernel, three, ?_, ?_⟩
  · exact decode_of_damaged accepted rfl ⟨0x80, by decide, by decide⟩ (.inl burst)
  · exact decode_of_damaged accepted rfl ⟨0x80, by decide, by decide⟩ (.inr (Nat.le_of_eq three))

end Rtu

end Modbus
