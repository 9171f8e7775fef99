import Modbus.Proofs.Saturation

/-! Whole numbers as doubles. A double has 53 significant bits: a number that needs no more is exact, and any other one
becomes a neighbour of it. So a value survives a change of its integer type as long as 53 bits suffice for it. -/
namespace Modbus

namespace Rounding

theorem halfEven_mul_mul (n d : Nat) {c : Nat} (pos : 0 < c) : halfEven (n * c) (d * c) = halfEven n d := by
  have less : 2 * (n % d * c) < d * c ↔ 2 * (n % d) < d := by
    rw [← Nat.mul_assoc, Nat.mul_lt_mul_right pos]
  have same : 2 * (n % d * c) = d * c ↔ 2 * (n % d) = d := by
    rw [← Nat.mul_assoc, Nat.mul_left_inj pos.ne']
  simp only [halfEven, Nat.mul_div_mul_right _ _ pos, Nat.mul_mod_mul_right, less, same]

theorem div_le_halfEven (n d : Nat) : n / d ≤ halfEven n d ∧ halfEven n d ≤ n / d + 1 := by
  unfold halfEven
  dsimp only
  split <;> omega

end Rounding

namespace Ieee

/-- The number needs no more than 53 significant bits: below and above them it has zeros only. -/
def Significant (n : Nat) : Prop := ∃ m e, m < 2 ^ 53 ∧ n = m * 2 ^ e

/-- The zeros that a number of 53 significant bits must have at its end to be about as large as `n`. -/
def excess (n : Nat) : Nat := n.log2 - 52

/-- The nearest number of 53 significant bits, of two equally near ones the even one. -/
def rounded (n : Nat) : Nat := Rounding.halfEven n (2 ^ excess n) * 2 ^ excess n

variable {n : Nat}

theorem div_excess_lt (n : Nat) : n / 2 ^ excess n < 2 ^ 53 := by
  have places : n.log2 + 1 ≤ excess n + 53 := by
    unfold excess
    omega
  have below : n < 2 ^ excess n * 2 ^ 53 := by
    rw [← Nat.pow_add]
    exact Nat.lt_log2_self.trans_le (Nat.pow_le_pow_right Nat.two_pos places)
  exact Nat.div_lt_of_lt_mul below

theorem excess_le {k : Nat} (small : n < 2 ^ (53 + k)) : excess n ≤ k := by
  rcases eq_or_ne n 0 with rfl | positive
  · exact Nat.zero_le k
  · have := (Nat.log2_lt positive).mpr small
    unfold excess
    omega

theorem log2_mul_two_pow (positive : n ≠ 0) (j : Nat) : (n * 2 ^ j).log2 = n.log2 + j := by
  induction j with
  | zero => rw [Nat.pow_zero, Nat.mul_one, Nat.add_zero]
  | succ j ih =>
    have step : n * 2 ^ (j + 1) = 2 * (n * 2 ^ j) := by rw [Nat.pow_succ]; ring
    rw [step, Nat.log2_two_mul (Nat.mul_ne_zero positive (Nat.two_pow_pos j).ne'), ih, Nat.add_assoc]

theorem rounded_of_lt (small : n < 2 ^ 53) : rounded n = n := by
  have whole : Rounding.halfEven (n * 1) 1 = n := Rounding.halfEven_mul n 1 Nat.one_pos
  rw [Nat.mul_one] at whole
  rw [rounded, Nat.le_zero.mp (excess_le small), Nat.pow_zero, Nat.mul_one, whole]

/-- Zeros at the end make no difference. -/
theorem rounded_mul_two_pow (n j : Nat) : rounded (n * 2 ^ j) = rounded n * 2 ^ j := by
  rcases eq_or_ne n 0 with rfl | positive
  · rw [Nat.zero_mul, rounded_of_lt (by decide), Nat.zero_mul]
  have size : (n * 2 ^ j).log2 = n.log2 + j := log2_mul_two_pow positive j
  by_cases large : 52 ≤ n.log2
  · have more : excess (n * 2 ^ j) = excess n + j := by
      unfold excess
      omega
    rw [rounded, rounded, more, Nat.pow_add, Rounding.halfEven_mul_mul _ _ (Nat.two_pow_pos j), Nat.mul_assoc]
  · -- A short number has room for zeros, so all that is taken off are some of those that were put on.
    have few : excess (n * 2 ^ j) ≤ j := by
      unfold excess
      omega
    have small : n < 2 ^ 53 := (Nat.log2_lt positive).mp (by omega)
    have split : n * 2 ^ j = n * 2 ^ (j - excess (n * 2 ^ j)) * 2 ^ excess (n * 2 ^ j) := by
      rw [Nat.mul_assoc, ← Nat.pow_add, Nat.sub_add_cancel few]
    have exact : rounded (n * 2 ^ j) = n * 2 ^ j := by
      unfold rounded
      generalize excess (n * 2 ^ j) = k at split
      rw [split, Rounding.halfEven_mul _ _ (Nat.two_pow_pos k)]
    rw [exact, rounded_of_lt small]

theorem rounded_eq_iff : rounded n = n ↔ Significant n := by
  constructor
  · intro same
    have divides : 2 ^ excess n ∣ n := Dvd.intro_left _ same
    exact ⟨n / 2 ^ excess n, excess n, div_excess_lt n, (Nat.div_mul_cancel divides).symm⟩
  · rintro ⟨m, e, small, rfl⟩
    rw [rounded_mul_two_pow, rounded_of_lt small]

/-- Rounding moves a number by no more than half of the place of its last bit. -/
theorem rounded_near (n : Nat) : 2 * rounded n ≤ 2 * n + 2 ^ excess n ∧ 2 * n ≤ 2 * rounded n + 2 ^ excess n :=
  Rounding.halfEven_near n (2 ^ excess n) (Nat.two_pow_pos _)

theorem significand_bounds (n : Nat) :
    Rounding.halfEven n (2 ^ excess n) ≤ 2 ^ 53 ∧
      (2 ^ 52 ≤ Rounding.halfEven n (2 ^ excess n) ∨ excess n = 0) := by
  obtain ⟨down, up⟩ := Rounding.div_le_halfEven n (2 ^ excess n)
  constructor
  · exact up.trans (div_excess_lt n)
  · rcases Nat.eq_zero_or_pos (excess n) with none | some
    · exact .inr none
    · have size : n.log2 = 52 + excess n := by
        unfold excess at some ⊢
        omega
      have positive : n ≠ 0 := by
        rintro rfl
        exact absurd some (by decide)
      have above : 2 ^ 52 * 2 ^ excess n ≤ n := by
        rw [← Nat.pow_add, ← size]
        exact Nat.log2_self_le positive
      exact .inl (((Nat.le_div_iff_mul_le (Nat.two_pow_pos _)).mpr above).trans down)

namespace Datum

/-- A pattern with these fields. -/
theorem ofBits_fields (negative : Bool) {exponent fraction : Nat} (finite : exponent < 2047)
    (small : fraction < 2 ^ 52) :
    ofBits .double (negative.toNat * 2 ^ 63 + (exponent * 2 ^ 52 + fraction)) =
      .finite negative ((if exponent = 0 then fraction else 2 ^ 52 + fraction) <<< (exponent - 1)) := by
  have one : negative.toNat < 2 := negative.toNat_lt
  have sign : (negative.toNat * 2 ^ 63 + (exponent * 2 ^ 52 + fraction)) / 2 ^ 63 % 2 = negative.toNat := by omega
  have field : (negative.toNat * 2 ^ 63 + (exponent * 2 ^ 52 + fraction)) / 2 ^ 52 % 2 ^ 11 = exponent := by omega
  have rest : (negative.toNat * 2 ^ 63 + (exponent * 2 ^ 52 + fraction)) % 2 ^ 52 = fraction := by omega
  rw [ofBits_double]
  simp only [sign, field, rest, if_neg finite.ne]
  cases negative <;> rfl

theorem toBits_finite (negative : Bool) {units : Nat} (small : excess units ≤ 2000) :
    (finite negative units).toBits .double =
      negative.toNat * 2 ^ 63 + (excess units * 2 ^ 52 + Rounding.halfEven units (2 ^ excess units)) := by
  obtain ⟨below, -⟩ := significand_bounds units
  have top : Format.double.top <<< Format.double.fractionBits = 2047 * 2 ^ 52 := by decide
  have binade : units.log2 - Format.double.scale - Format.double.fractionBits = excess units := rfl
  have scale : 1 <<< (Format.double.scale + excess units) = 2 ^ excess units := by
    rw [Nat.one_shiftLeft]
    exact congrArg (2 ^ ·) (Nat.zero_add _)
  have place : excess units <<< Format.double.fractionBits = excess units * 2 ^ 52 := Nat.shiftLeft_eq _ _
  have bits : roundedBits .double units = excess units * 2 ^ 52 + Rounding.halfEven units (2 ^ excess units) := by
    rw [roundedBits, binade, scale, top, place, Nat.min_eq_right]
    omega
  rw [toBits, bits]
  rfl

/-- A double is the nearest number of 53 significant bits, unless there are too many units for any. -/
theorem ofBits_toBits (negative : Bool) {units : Nat} (small : excess units ≤ 2000) :
    ofBits .double ((finite negative units).toBits .double) = finite negative (rounded units) := by
  obtain ⟨below, above⟩ := significand_bounds units
  rw [toBits_finite negative small, rounded]
  generalize Rounding.halfEven units (2 ^ excess units) = q at below above ⊢
  generalize excess units = k at small above ⊢
  -- A carry out of the fraction leaves it empty and goes to the exponent.
  rcases lt_or_ge q (2 ^ 52) with short | leading
  · obtain rfl : k = 0 := above.resolve_left (not_le.mpr short)
    rw [ofBits_fields negative (by decide) short]
    simp
  · rcases below.lt_or_eq with inside | rfl
    · have fields : k * 2 ^ 52 + q = (k + 1) * 2 ^ 52 + (q - 2 ^ 52) := by omega
      rw [fields, ofBits_fields negative (by omega) (by omega), if_neg (Nat.succ_ne_zero k),
        Nat.add_sub_cancel' leading, Nat.shiftLeft_eq]
      rfl
    · have fields : k * 2 ^ 52 + 2 ^ 53 = (k + 2) * 2 ^ 52 + 0 := by omega
      rw [fields, ofBits_fields negative (by omega) (by decide), if_neg (Nat.succ_ne_zero _), Nat.shiftLeft_eq]
      congr 1
      have : k + 2 - 1 = k + 1 := rfl
      rw [this, Nat.pow_succ]
      ring

end Datum

/-- The nearest whole number of 53 significant bits. -/
def roundedInt (i : ℤ) : ℤ := Datum.signed (i < 0) (rounded i.natAbs)

theorem roundedInt_cases (i : ℤ) :
    0 ≤ i ∧ roundedInt i = rounded i.natAbs ∨ i < 0 ∧ roundedInt i = -rounded i.natAbs := by
  rcases lt_or_ge i 0 with below | above
  · exact .inr ⟨below, if_pos (decide_eq_true below)⟩
  · exact .inl ⟨above, if_neg (by simpa using above)⟩

theorem roundedInt_eq_iff {i : ℤ} : roundedInt i = i ↔ Significant i.natAbs := by
  rw [← rounded_eq_iff]
  rcases roundedInt_cases i with ⟨sign, eq⟩ | ⟨sign, eq⟩ <;> omega

theorem roundedInt_near {i : ℤ} (small : i.natAbs < 2 ^ 63) : |roundedInt i - i| ≤ 512 := by
  obtain ⟨down, up⟩ := rounded_near i.natAbs
  have place : 2 ^ excess i.natAbs ≤ 2 ^ 10 := Nat.pow_le_pow_right Nat.two_pos (excess_le small)
  rw [abs_le]
  rcases roundedInt_cases i with ⟨sign, eq⟩ | ⟨sign, eq⟩ <;> omega

theorem significant_of_lt (small : n < 2 ^ 53) : Significant n := ⟨n, 0, small, (Nat.mul_one n).symm⟩

theorem significant_of_le (small : n ≤ 2 ^ 53) : Significant n := by
  rcases small.lt_or_eq with less | rfl
  · exact significant_of_lt less
  · exact ⟨1, 53, by decide, by decide⟩

namespace Double

theorem datum_ofInt {i : ℤ} (small : i.natAbs < 2 ^ 64) :
    (ofInt i).datum = .finite (i < 0) (rounded i.natAbs * Datum.one) := by
  obtain ⟨p, few, one⟩ : ∃ p, p ≤ 1074 ∧ Datum.one = 2 ^ p := ⟨1074, le_rfl, Datum.one_eq⟩
  have room : excess (i.natAbs * Datum.one) ≤ 2000 := by
    have size : i.natAbs * Datum.one < 2 ^ (53 + (11 + p)) := by
      rw [← Nat.add_assoc, Nat.pow_add, one]
      exact Nat.mul_lt_mul_of_pos_right small (Nat.two_pow_pos p)
    have := excess_le size
    omega
  have fits : (Datum.toBits .double (.ofInt i)) < 2 ^ 64 := by
    obtain ⟨below, -⟩ := significand_bounds (i.natAbs * Datum.one)
    have sign := (decide (i < 0)).toNat_lt
    rw [Datum.ofInt, Datum.toBits_finite _ room]
    omega
  have kept : (UInt64.ofNat (Datum.toBits .double (.ofInt i))).toNat = Datum.toBits .double (.ofInt i) :=
    UInt64.toNat_ofNat_of_lt' fits
  rw [ofInt, ofDatum, datum, kept, Datum.ofInt, Datum.ofBits_toBits _ room, one, rounded_mul_two_pow]

/-- A whole number as a double, and back into a range. -/
theorem held_ofInt {i : ℤ} (small : i.natAbs < 2 ^ 64) (low high : ℤ) :
    (ofInt i).held low high = max low (min high (roundedInt i)) := by
  have positive : (Datum.one : ℤ) ≠ 0 := Int.natCast_ne_zero.mpr Datum.one_pos.ne'
  have units (negative : Bool) (n : Nat) : Datum.signed negative (n * Datum.one) = Datum.signed negative n * Datum.one := by
    cases negative <;> simp [Datum.signed]
  rw [held_eq, datum_ofInt small, Datum.held, units, Int.mul_tdiv_cancel _ positive]
  rfl

end Double

end Ieee

namespace Value

open Ieee (Double Significant rounded roundedInt)

variable {v : Value} {i : ℤ} {t : DataType} {low high : ℤ}

theorem toDouble_of_int? (number : v.int? = some i) : v.toDouble = .ofInt i := by
  cases v with
  | f32 | f64 => exact absurd number nofun
  | _ =>
    obtain rfl := Option.some.inj number
    rfl

/-- Only the unsigned 64-bit values reach beyond the signed ones, and only the signed ones reach the least of these. The
values of fewer registers all have less than 53 bits. -/
theorem int?_bounds (number : v.int? = some i) :
    i.natAbs < 2 ^ 64 ∧ (v.type ≠ .uint64 → i < 2 ^ 63) ∧ (v.type ≠ .int64 → -2 ^ 63 < i) ∧
      (v.type.registers ≠ 4 → i.natAbs < 2 ^ 53) := by
  cases v with
  | f32 | f64 => exact absurd number nofun
  | bool b =>
    obtain rfl := Option.some.inj number
    cases b <;> decide
  | u16 n | u32 n =>
    obtain rfl := Option.some.inj number
    have := n.toNat_lt
    exact ⟨by omega, fun _ => by omega, fun _ => by omega, fun _ => by omega⟩
  | u64 n =>
    obtain rfl := Option.some.inj number
    have := n.toNat_lt
    exact ⟨by omega, fun other => absurd rfl other, fun _ => by omega, fun narrow => absurd rfl narrow⟩
  | i16 n | i32 n =>
    obtain rfl := Option.some.inj number
    have := n.le_toInt
    have := n.toInt_lt
    exact ⟨by omega, fun _ => by omega, fun _ => by omega, fun _ => by omega⟩
  | i64 n =>
    obtain rfl := Option.some.inj number
    have := n.le_toInt
    have := n.toInt_lt
    exact ⟨by omega, fun _ => by omega, fun other => absurd rfl other, fun narrow => absurd rfl narrow⟩

theorem range_bounds (range : intRange? t = some (low, high)) :
    (t ≠ .uint64 → high < 2 ^ 63) ∧ (t ≠ .int64 → -2 ^ 63 < low) ∧
      (t.registers ≠ 4 → -2 ^ 53 < low ∧ high < 2 ^ 53) := by
  cases t with
  | bool | float32 | float64 => exact absurd range nofun
  | _ =>
    obtain ⟨rfl, rfl⟩ := Prod.mk.inj (Option.some.inj range)
    decide

/-- A number that takes more than 53 significant bits is beyond 2 ^ 53, where only the two types of 64 bits reach. -/
theorem beyond_of_not_significant (number : v.int? = some i) (range : intRange? t = some (low, high))
    (inside : low ≤ i ∧ i ≤ high) (long : ¬Significant i.natAbs) :
    v.type.registers = 4 ∧ t.registers = 4 ∧ 2 ^ 53 < i.natAbs := by
  have beyond : 2 ^ 53 < i.natAbs := Nat.lt_of_not_le fun small => long (Ieee.significant_of_le small)
  obtain ⟨-, -, -, narrowOwn⟩ := int?_bounds number
  obtain ⟨-, -, narrow⟩ := range_bounds range
  refine ⟨by_contra fun fewer => ?_, by_contra fun fewer => ?_, beyond⟩
  · exact absurd (narrowOwn fewer) (Nat.not_lt_of_lt beyond)
  · obtain ⟨below, above⟩ := narrow fewer
    omega

/-- The ends of a range are exact, but for the last number of 64 bits. -/
theorem significant_ends (range : intRange? t = some (low, high)) :
    Significant low.natAbs ∧ (Significant high.natAbs ∨ t = .uint64 ∨ t = .int64) := by
  cases t with
  | bool | float32 | float64 => exact absurd range nofun
  | uint16 | int16 | uint32 | int32 =>
    obtain ⟨rfl, rfl⟩ := Prod.mk.inj (Option.some.inj range)
    exact ⟨Ieee.significant_of_lt (by decide), .inl (Ieee.significant_of_lt (by decide))⟩
  | uint64 =>
    obtain ⟨rfl, rfl⟩ := Prod.mk.inj (Option.some.inj range)
    exact ⟨Ieee.significant_of_lt (by decide), .inr (.inl rfl)⟩
  | int64 =>
    obtain ⟨rfl, rfl⟩ := Prod.mk.inj (Option.some.inj range)
    exact ⟨⟨1, 63, by decide, by decide⟩, .inr (.inr rfl)⟩

theorem natAbs_lt_of_foreign (number : v.int? = some i) (range : intRange? t = some (low, high))
    (inside : low ≤ i ∧ i ≤ high) (foreign : v.type ≠ t) : i.natAbs < 2 ^ 63 := by
  obtain ⟨-, belowOwn, aboveOwn, -⟩ := int?_bounds number
  obtain ⟨below, above, -⟩ := range_bounds range
  have less : i < 2 ^ 63 := by
    by_cases unsigned : t = .uint64
    · exact belowOwn (unsigned ▸ foreign)
    · exact inside.2.trans_lt (below unsigned)
  have more : -2 ^ 63 < i := by
    by_cases signed : t = .int64
    · exact aboveOwn (signed ▸ foreign)
    · exact (above signed).trans_le inside.1
  omega

/-- A whole number of another type is rounded as a double, and then it is held inside the range. -/
theorem exists_encodeAs_foreign (number : v.int? = some i) (range : intRange? t = some (low, high)) {tag : String}
    (known : DataType.ofTag? tag = some t) (foreign : v.type ≠ t) (bit : UInt8) (o : ByteOrder) :
    ∃ words w, v.encodeAs tag o = .ok words ∧ decode words tag bit o = .ok w ∧ w.type = t ∧
      w.int? = some (max low (min high (roundedInt i))) := by
  obtain ⟨small, -⟩ := int?_bounds number
  rw [encodeAs_foreign known foreign, toDouble_of_int? number, ← Double.held_ofInt small]
  exact exists_encodeDoubleAs range known _ bit o

/-- Inside the range the rounded number is the number itself if that has 53 significant bits, or if it is the last signed
number of 64 bits, which rounding moves out of the range. -/
theorem held_roundedInt_eq_iff (range : intRange? t = some (low, high)) (inside : low ≤ i ∧ i ≤ high)
    (small : i.natAbs < 2 ^ 63) :
    max low (min high (roundedInt i)) = i ↔ Significant i.natAbs ∨ t = .int64 ∧ i = high := by
  obtain ⟨exactLow, exactHigh⟩ := significant_ends range
  constructor
  · intro same
    rcases eq_or_ne (roundedInt i) i with kept | moved
    · exact .inl (Ieee.roundedInt_eq_iff.mp kept)
    · have edge : i = low ∨ i = high := by omega
      rcases edge with rfl | rfl
      · exact .inl exactLow
      · rcases exactHigh with exact | rfl | rfl
        · exact .inl exact
        · obtain ⟨-, rfl⟩ := Prod.mk.inj (Option.some.inj range)
          exact absurd small (by decide)
        · exact .inr ⟨rfl, rfl⟩
  · rintro (exact | ⟨rfl, rfl⟩)
    · have := Ieee.roundedInt_eq_iff.mpr exact
      omega
    · obtain ⟨rfl, rfl⟩ := Prod.mk.inj (Option.some.inj range)
      decide +kernel

/-- A whole number is encoded under the tags of every integer type whose range it is in. Between two types it is rounded to
53 significant bits and held inside the range, so it is read back with an error of no more than 512. It is read back as
itself exactly if its own type is that of the tag, or 53 significant bits suffice for it, or it is the last signed number of
64 bits; only numbers beyond 2 ^ 53 between the two types of 64 bits are not. -/
theorem decode_encodeAs_eq_iff (number : v.int? = some i) (range : intRange? t = some (low, high))
    (inside : low ≤ i ∧ i ≤ high) {tag : String} (known : DataType.ofTag? tag = some t) (bit : UInt8) (o : ByteOrder) :
    ∃ words w n, v.encodeAs tag o = .ok words ∧ decode words tag bit o = .ok w ∧ w.type = t ∧ w.int? = some n ∧
      (n = i ↔ v.type = t ∨ Significant i.natAbs ∨ t = .int64 ∧ i = high) ∧
      (v.type ≠ t → n = max low (min high (roundedInt i))) ∧ |n - i| ≤ 512 ∧
      (n ≠ i → v.type.registers = 4 ∧ t.registers = 4 ∧ 2 ^ 53 < i.natAbs) := by
  by_cases own : v.type = t
  · subst own
    have decoded : decode (v.encode o) tag bit o = .ok v :=
      v.decode_encode_alone known (fun isBool => absurd isBool (ne_bool_of_range range)) o
    refine ⟨v.encode o, v, i, v.encodeAs_own known o, decoded, rfl, number, iff_of_true rfl (.inl rfl),
      fun other => absurd rfl other, ?_, fun moved => absurd rfl moved⟩
    rw [sub_self, abs_zero]
    decide
  · have small := natAbs_lt_of_foreign number range inside own
    obtain ⟨words, w, encoded, decoded, type, whole⟩ := exists_encodeAs_foreign number range known own bit o
    have same := held_roundedInt_eq_iff range inside small
    refine ⟨words, w, _, encoded, decoded, type, whole, ?_, fun _ => rfl, ?_, fun moved => ?_⟩
    · rw [same]
      exact (or_iff_right own).symm
    · have near := abs_le.mp (Ieee.roundedInt_near small)
      rw [abs_le]
      omega
    · exact beyond_of_not_significant number range inside fun short => moved (same.mpr (.inl short))

/-- The last signed number of 64 bits, held in an unsigned value, survives although it takes 63 significant bits. -/
theorem decode_encodeAs_eq_iff_lastSigned :
    ∃ words w, (u64 9223372036854775807).encodeAs "LongLong" .littleEndian = .ok words ∧
      decode words "LongLong" 0 .littleEndian = .ok w ∧ w.type = .int64 ∧ w.int? = some 9223372036854775807 := by
  have known : DataType.ofTag? "LongLong" = some .int64 := by decide +kernel
  obtain ⟨words, w, n, encoded, decoded, type, whole, same, -⟩ :=
    decode_encodeAs_eq_iff (v := u64 9223372036854775807) (i := 9223372036854775807) (by decide) (t := .int64) rfl
      (by decide) known 0 .littleEndian
  obtain rfl := same.mpr (.inr (.inr ⟨rfl, rfl⟩))
  exact ⟨words, w, encoded, decoded, type, whole⟩

/-- The first number that takes 54 significant bits, held in an unsigned value, loses its last bit as a signed one. -/
theorem wholeNumber_altered :
    (u64 9007199254740993).int? = some 9007199254740993 ∧
      (u64 9007199254740993).encodeAs "int64" .bigEndian = .ok [32, 0, 0, 0] ∧
      decode [32, 0, 0, 0] "int64" 0 .bigEndian = .ok (i64 9007199254740992) ∧
      intRange? .int64 = some (-9223372036854775808, 9223372036854775807) :=
  ⟨by decide +kernel, by decide +kernel, by decide +kernel, rfl⟩

end Value

end Modbus
