import Mathlib.Data.Rat.Floor
import Modbus.Proofs.Layout

/-! Doubles that become whole numbers. A finite double is the rational number that its sign, exponent and fraction denote.
Converted to an integer type it gives the whole part of this number, held inside the exact range of the type, although
the ends are compared as doubles and the greatest 64-bit numbers are no doubles. -/
namespace Modbus.Ieee

/-- The whole part of a number: the fraction is dropped, so that a negative number goes up. -/
def wholePart (q : ℚ) : ℤ := if 0 ≤ q then ⌊q⌋ else ⌈q⌉

theorem wholePart_div (i : ℤ) {d : Nat} (pos : 0 < d) : wholePart (i / d : ℚ) = i.tdiv d := by
  have positive : (0 : ℚ) < d := Nat.cast_pos.mpr pos
  unfold wholePart
  split
  case isTrue nonneg =>
    have sign : 0 ≤ i := by
      have := mul_nonneg nonneg positive.le
      rw [div_mul_cancel₀ _ positive.ne'] at this
      exact Int.cast_nonneg_iff.mp this
    rw [Rat.floor_intCast_div_natCast, Int.tdiv_eq_ediv_of_nonneg sign]
  case isFalse below =>
    have sign : 0 ≤ -i := by
      have := mul_neg_of_neg_of_pos (not_le.mp below) positive
      rw [div_mul_cancel₀ _ positive.ne'] at this
      have := Int.cast_lt_zero.mp this
      omega
    have mirrored : ⌈(i / d : ℚ)⌉ = -⌊((-i : ℤ) / d : ℚ)⌋ := by
      rw [Int.cast_neg, neg_div, Int.floor_neg, neg_neg]
    rw [mirrored, Rat.floor_intCast_div_natCast, ← Int.tdiv_eq_ediv_of_nonneg sign, Int.neg_tdiv, neg_neg]

namespace Double

/-! The fields of a pattern. -/

def negative (x : Double) : Bool := x.bits.toNat / 2 ^ 63 % 2 = 1

def exponent (x : Double) : Nat := x.bits.toNat / 2 ^ 52 % 2 ^ 11

def fraction (x : Double) : Nat := x.bits.toNat % 2 ^ 52

/-- The fraction with the leading bit, which numbers with the least exponent do not have. -/
def significand (x : Double) : Nat := if x.exponent = 0 then x.fraction else 2 ^ 52 + x.fraction

/-- The number that a finite pattern denotes. The two least exponents have one scale. -/
def value (x : Double) : ℚ := (if x.negative then -1 else 1) * x.significand * 2 ^ ((max x.exponent 1 : ℤ) - 1075)

/-- The whole part of a number, held inside a range. An infinity is the end of its sign and a NaN is 0. -/
def held (x : Double) (low high : ℤ) : ℤ :=
  if x.exponent = 2047 then
    if x.fraction ≠ 0 then 0 else if x.negative then low else high
  else max low (min high (wholePart x.value))

end Double

namespace Datum

/-- The format of doubles with its sizes put in. Both kinds of finite numbers are shifted alike. -/
theorem ofBits_double (bits : Nat) :
    ofBits .double bits =
      let negative := bits / 2 ^ 63 % 2 = 1
      let exponent := bits / 2 ^ 52 % 2 ^ 11
      let fraction := bits % 2 ^ 52
      if exponent = 2047 then if fraction = 0 then infinite negative else nan negative fraction
      else finite negative ((if exponent = 0 then fraction else 2 ^ 52 + fraction) <<< (exponent - 1)) := by
  have exponent : bits >>> Format.double.fractionBits % (1 <<< Format.double.exponentBits) = bits / 2 ^ 52 % 2 ^ 11 := by
    rw [Nat.shiftRight_eq_div_pow]
    rfl
  have top : Format.double.top = 2047 := rfl
  have fraction : bits % (1 <<< Format.double.fractionBits) = bits % 2 ^ 52 := rfl
  have sign : bits / Format.double.signBit % 2 = bits / 2 ^ 63 % 2 := rfl
  dsimp only
  rw [ofBits, exponent, fraction, sign, top]
  split
  · rfl
  · split
    case isTrue least =>
      rw [least]
      rfl
    · rfl

theorem one_eq : one = 2 ^ 1074 := by decide +kernel

theorem one_pos : 0 < one := by decide +kernel

theorem signed_ofInt (i : ℤ) : signed (i < 0) (i.natAbs * one) = i * one := by
  unfold signed
  rcases lt_or_ge i 0 with below | above
  · rw [if_pos (decide_eq_true below), Nat.cast_mul]
    have : (i.natAbs : ℤ) = -i := by omega
    rw [this, neg_mul, neg_neg]
  · rw [if_neg (by simpa using above), Nat.cast_mul, Int.natAbs_of_nonneg above]

theorem less_ofInt (negative : Bool) (units : Nat) (i : ℤ) :
    (finite negative units).less (ofInt i) = decide (signed negative units < i * one) := by
  rw [ofInt, less, signed_ofInt]

theorem ofInt_less (negative : Bool) (units : Nat) (i : ℤ) :
    (ofInt i).less (finite negative units) = decide (i * one < signed negative units) := by
  rw [ofInt, less, signed_ofInt]

theorem truncate_finite (negative : Bool) (units : Nat) :
    (finite negative units).truncate = (signed negative units).tdiv one := by
  cases negative with
  | false => exact Int.ofNat_tdiv units one
  | true => exact (congrArg Neg.neg (Int.ofNat_tdiv units one)).trans (Int.neg_tdiv _ _).symm

/-- The whole part in a range, as far as the range goes: read off the number of units. -/
def held (low high : ℤ) : Datum → ℤ
  | nan .. => 0
  | infinite negative => if negative then low else high
  | finite negative units => max low (min high ((signed negative units).tdiv one))

end Datum

namespace Double

variable {low high top : ℤ}

/-- Units of a finite pattern. -/
def units (x : Double) : Nat := x.significand <<< (x.exponent - 1)

theorem datum_eq (x : Double) :
    x.datum =
      if x.exponent = 2047 then if x.fraction = 0 then .infinite x.negative else .nan x.negative x.fraction
      else .finite x.negative x.units := Datum.ofBits_double x.bits.toNat

theorem value_eq (x : Double) : x.value = (Datum.signed x.negative x.units : ℚ) / (Datum.one : ℚ) := by
  have power : ((max x.exponent 1 : ℤ) - 1075) = ((x.exponent - 1 : ℕ) : ℤ) - (1074 : ℕ) := by omega
  have signed : (Datum.signed x.negative x.units : ℚ) = (if x.negative then -1 else 1) * (x.units : ℚ) := by
    cases x.negative <;> simp [Datum.signed]
  rw [value, power, zpow_sub₀ two_ne_zero, zpow_natCast, zpow_natCast, signed, units, Nat.shiftLeft_eq, Datum.one_eq,
    Nat.cast_mul, Nat.cast_pow, Nat.cast_pow, Nat.cast_ofNat, mul_assoc, mul_div_assoc, mul_div_assoc]

theorem held_eq (x : Double) (low high : ℤ) : x.held low high = x.datum.held low high := by
  rw [held, datum_eq]
  split
  · by_cases whole : x.fraction = 0
    · rw [if_neg (not_not_intro whole), if_pos whole]
      rfl
    · rw [if_pos whole, if_neg whole]
      rfl
  · rw [value_eq, wholePart_div _ Datum.one_pos]
    rfl

/-- A range whose ends become the doubles `low` and `top`. The upper end may be rounded up to the next whole number. -/
structure Ends (low high top : ℤ) : Prop where
  low_le : low ≤ 0
  high_pos : 0 < high
  high_le : high ≤ top
  top_le : top ≤ high + 1
  low_datum : (ofInt low).datum = .ofInt low
  high_datum : (ofInt high).datum = .ofInt top

/-- The number reaches the last case of `saturate`, where it is converted itself. -/
def Converts (x : Double) (low high : ℤ) : Prop :=
  x.datum.isNaN = false ∧ x.datum.less (ofInt high).datum = true ∧ (ofInt low).datum.less x.datum = true

theorem Converts.saturate_eq {x : Double} (h : x.Converts low high) : x.saturate low high = x.datum.truncate := by
  obtain ⟨number, below, above⟩ := h
  simp [saturate, number, below, above]

namespace Ends

variable (ends : Ends low high top) {s : ℤ}
include ends

theorem held_of_le (below : s ≤ low * Datum.one) : max low (min high (s.tdiv Datum.one)) = low := by
  have positive : (0 : ℤ) < Datum.one := Int.natCast_pos.mpr Datum.one_pos
  have part : s.tdiv Datum.one ≤ low :=
    (Int.tdiv_le_tdiv positive below).trans_eq (Int.mul_tdiv_cancel low positive.ne')
  have := ends.high_pos
  omega

theorem held_of_ge (above : top * Datum.one ≤ s) : max low (min high (s.tdiv Datum.one)) = high := by
  have positive : (0 : ℤ) < Datum.one := Int.natCast_pos.mpr Datum.one_pos
  have part : top ≤ s.tdiv Datum.one :=
    (Int.mul_tdiv_cancel top positive.ne').symm.trans_le (Int.tdiv_le_tdiv positive above)
  have := ends.low_le
  have := ends.high_pos
  have := ends.high_le
  omega

/-- Between the ends, the upper one as it was rounded, the whole part is in the range. -/
theorem inside (below : s < top * Datum.one) (above : low * Datum.one < s) :
    low ≤ s.tdiv Datum.one ∧ s.tdiv Datum.one ≤ high := by
  have positive : (0 : ℤ) < Datum.one := Int.natCast_pos.mpr Datum.one_pos
  constructor
  · exact (Int.mul_tdiv_cancel low positive.ne').symm.trans_le (Int.tdiv_le_tdiv positive above.le)
  · rcases lt_or_ge s 0 with negative | nonneg
    · have part : s.tdiv Datum.one ≤ (0 : ℤ).tdiv Datum.one := Int.tdiv_le_tdiv positive negative.le
      rw [Int.zero_tdiv] at part
      exact part.trans ends.high_pos.le
    · have part : s.tdiv Datum.one < top := by
        rw [Int.tdiv_eq_ediv_of_nonneg nonneg]
        exact Int.ediv_lt_of_lt_mul positive below
      exact Int.le_of_lt_add_one (part.trans_le ends.top_le)

theorem held_of_less {d : Datum} (below : d.less (.ofInt low) = true) : d.held low high = low := by
  cases d with
  | nan => exact absurd below Bool.false_ne_true
  | infinite negative =>
    obtain rfl : negative = true := below
    rfl
  | finite negative units =>
    rw [Datum.less_ofInt, decide_eq_true_eq] at below
    exact ends.held_of_le below.le

theorem held_of_greater {d : Datum} (above : (Datum.ofInt top).less d = true) : d.held low high = high := by
  cases d with
  | nan => exact absurd above Bool.false_ne_true
  | infinite negative =>
    obtain rfl : negative = false := (Bool.not_eq_true' negative).mp above
    rfl
  | finite negative units =>
    rw [Datum.ofInt_less, decide_eq_true_eq] at above
    exact ends.held_of_ge above.le

/-- A number that is converted is finite, and its whole part is in the range. -/
theorem inside_of_converts {x : Double} (h : x.Converts low high) :
    ∃ negative units, x.datum = .finite negative units ∧ low ≤ x.datum.truncate ∧ x.datum.truncate ≤ high := by
  obtain ⟨number, below, above⟩ := h
  rw [ends.high_datum] at below
  rw [ends.low_datum] at above
  cases form : x.datum with
  | nan =>
    rw [form] at number
    exact absurd number.symm Bool.false_ne_true
  | infinite negative =>
    rw [form] at below above
    obtain rfl : negative = true := below
    exact absurd above Bool.false_ne_true
  | finite negative units =>
    rw [form, Datum.less_ofInt, decide_eq_true_eq] at below
    rw [form, Datum.ofInt_less, decide_eq_true_eq] at above
    rw [Datum.truncate_finite]
    exact ⟨negative, units, rfl, ends.inside below above⟩

theorem saturate_eq (x : Double) : x.saturate low high = x.datum.held low high := by
  rw [saturate, ends.low_datum, ends.high_datum]
  cases form : x.datum with
  | nan => rfl
  | infinite negative => cases negative <;> rfl
  | finite negative units =>
    simp only [Datum.isNaN, Datum.less_ofInt, Datum.ofInt_less, Datum.truncate_finite, Datum.held,
      Bool.not_eq_true', decide_eq_false_iff_not, not_lt, Bool.false_eq_true, if_false]
    split
    case isTrue above => exact (ends.held_of_ge above).symm
    case isFalse below =>
      split
      case isTrue above => exact (ends.held_of_le above).symm
      case isFalse above =>
        obtain ⟨left, right⟩ := ends.inside (not_le.mp below) (not_le.mp above)
        rw [min_eq_right right, max_eq_right left]

/-- Clamping first changes nothing: a number that it moves to an end would be held there anyway. -/
theorem saturate_clamp (x : Double) : (x.clamp (ofInt low) (ofInt high)).saturate low high = x.held low high := by
  rw [ends.saturate_eq, held_eq, clamp, ends.low_datum, ends.high_datum]
  split
  case isTrue below =>
    have atLow : (Datum.ofInt low).held low high = low := ends.held_of_le (Datum.signed_ofInt low).le
    rw [ends.low_datum, atLow, ends.held_of_less below]
  case isFalse =>
    split
    case isTrue above =>
      have atHigh : (Datum.ofInt top).held low high = high := ends.held_of_ge (Datum.signed_ofInt top).ge
      rw [ends.high_datum, atHigh, ends.held_of_greater above]
    case isFalse => rfl

theorem held_inside (x : Double) : low ≤ x.held low high ∧ x.held low high ≤ high := by
  have := ends.low_le
  have := ends.high_pos
  rw [held_eq]
  cases x.datum with
  | nan => exact ⟨ends.low_le, ends.high_pos.le⟩
  | infinite negative => cases negative <;> constructor <;> dsimp only [Datum.held] <;> omega
  | finite => constructor <;> dsimp only [Datum.held] <;> omega

end Ends

end Double

end Modbus.Ieee

namespace Modbus.Value

open Ieee (Double)

variable {t : DataType} {low high : ℤ}

theorem ne_bool_of_range (range : intRange? t = some (low, high)) : t ≠ .bool := by
  rintro rfl
  exact absurd range nofun

/-- The greatest 64-bit numbers are no doubles; those of the narrower types are. -/
theorem exists_ends (range : intRange? t = some (low, high)) : ∃ top, Double.Ends low high top := by
  cases t with
  | bool | float32 | float64 => exact absurd range nofun
  | uint16 | int16 | uint32 | int32 =>
    refine ⟨high, ?_⟩
    obtain ⟨rfl, rfl⟩ := Prod.mk.inj (Option.some.inj range)
    constructor <;> decide +kernel
  | uint64 | int64 =>
    refine ⟨high + 1, ?_⟩
    obtain ⟨rfl, rfl⟩ := Prod.mk.inj (Option.some.inj range)
    constructor <;> decide +kernel

theorem clampTo_of_range (range : intRange? t = some (low, high)) (x : Double) :
    clampTo t x = x.clamp (.ofInt low) (.ofInt high) := by
  cases t with
  | bool | float32 | float64 => exact absurd range nofun
  | _ =>
    obtain ⟨rfl, rfl⟩ := Prod.mk.inj (Option.some.inj range)
    rfl

/-- A whole number in the range of a type is a value of it. -/
theorem int?_ofDouble (range : intRange? t = some (low, high)) {x : Double} {whole : ℤ}
    (eq : (clampTo t x).saturate low high = whole) (inside : low ≤ whole ∧ whole ≤ high) :
    (ofDouble t x).int? = some whole := by
  cases t with
  | bool | float32 | float64 => exact absurd range nofun
  | uint16 =>
    obtain ⟨rfl, rfl⟩ := Prod.mk.inj (Option.some.inj range)
    have kept : ((UInt16.ofInt whole).toNat : ℤ) = whole := by
      rw [UInt16.ofInt, UInt16.toNat_ofNat']
      omega
    simp only [ofDouble, intRange?, eq, int?, kept]
  | uint32 =>
    obtain ⟨rfl, rfl⟩ := Prod.mk.inj (Option.some.inj range)
    have kept : ((UInt32.ofInt whole).toNat : ℤ) = whole := by
      rw [UInt32.ofInt, UInt32.toNat_ofNat']
      omega
    simp only [ofDouble, intRange?, eq, int?, kept]
  | uint64 =>
    obtain ⟨rfl, rfl⟩ := Prod.mk.inj (Option.some.inj range)
    have kept : ((UInt64.ofInt whole).toNat : ℤ) = whole := by
      rw [UInt64.ofInt, UInt64.toNat_ofNat']
      omega
    simp only [ofDouble, intRange?, eq, int?, kept]
  | int16 =>
    obtain ⟨rfl, rfl⟩ := Prod.mk.inj (Option.some.inj range)
    have kept : (Int16.ofInt whole).toInt = whole := Int16.toInt_ofInt_of_le inside.1 (Int.lt_add_one_of_le inside.2)
    simp only [ofDouble, intRange?, eq, int?, kept]
  | int32 =>
    obtain ⟨rfl, rfl⟩ := Prod.mk.inj (Option.some.inj range)
    have kept : (Int32.ofInt whole).toInt = whole := Int32.toInt_ofInt_of_le inside.1 (Int.lt_add_one_of_le inside.2)
    simp only [ofDouble, intRange?, eq, int?, kept]
  | int64 =>
    obtain ⟨rfl, rfl⟩ := Prod.mk.inj (Option.some.inj range)
    have kept : (Int64.ofInt whole).toInt = whole := Int64.toInt_ofInt_of_le inside.1 (Int.lt_add_one_of_le inside.2)
    simp only [ofDouble, intRange?, eq, int?, kept]

/-- A double under a tag of an integer type: the registers hold the value of the type that is its whole part, as far as
the range goes. -/
theorem exists_encodeDoubleAs (range : intRange? t = some (low, high)) {tag : String}
    (known : DataType.ofTag? tag = some t) (x : Double) (bit : UInt8) (o : ByteOrder) :
    ∃ words v, encodeDoubleAs x tag o = .ok words ∧ decode words tag bit o = .ok v ∧ v.type = t ∧
      v.int? = some (x.held low high) := by
  obtain ⟨top, ends⟩ := exists_ends range
  have type : (ofDouble t x).type = t := type_ofDouble t x
  have integer : (ofDouble t x).type ≠ .bool := type.symm ▸ ne_bool_of_range range
  have whole : (clampTo t x).saturate low high = x.held low high := by
    rw [clampTo_of_range range, ends.saturate_clamp]
  have decoded : decode ((ofDouble t x).encode o) tag bit o = .ok (ofDouble t x) :=
    (ofDouble t x).decode_encode_alone (type.symm ▸ known) (fun isBool => absurd isBool integer) o
  refine ⟨(ofDouble t x).encode o, ofDouble t x, ?_, decoded, type, int?_ofDouble range whole (ends.held_inside x)⟩
  simp only [encodeDoubleAs, known]

/-- Every double is encoded under a tag of an integer type, and the registers are read back as its whole part, held inside
the range of the type; 0 for a NaN, and the end of its sign for an infinity. The conversion itself is only made for a
finite number whose whole part is in the range. -/
theorem decode_encodeDoubleAs (range : intRange? t = some (low, high)) {tag : String}
    (known : DataType.ofTag? tag = some t) (x : Double) (bit : UInt8) (o : ByteOrder) :
    (∃ words v, encodeDoubleAs x tag o = .ok words ∧ decode words tag bit o = .ok v ∧ v.type = t ∧
      v.int? = some (x.held low high)) ∧
    let clamped := clamp x tag
    clamped.Converts low high →
      clamped.saturate low high = clamped.datum.truncate ∧
        ∃ negative units, clamped.datum = .finite negative units ∧
          low ≤ clamped.datum.truncate ∧ clamped.datum.truncate ≤ high := by
  obtain ⟨top, ends⟩ := exists_ends range
  exact ⟨exists_encodeDoubleAs range known x bit o, fun converts =>
    ⟨converts.saturate_eq, ends.inside_of_converts converts⟩⟩

/-- The last double below 2 ^ 64 is still converted. -/
theorem decode_encodeDoubleAs_lastBelow :
    (∃ words v, encodeDoubleAs ⟨0x43EFFFFFFFFFFFFF⟩ "QWord" .littleEndianSwap = .ok words ∧
      decode words "QWord" 0 .littleEndianSwap = .ok v ∧ v.type = .uint64 ∧ v.int? = some 18446744073709549568) ∧
    (clamp ⟨0x43EFFFFFFFFFFFFF⟩ "QWord").datum.truncate ≤ 18446744073709551615 := by
  have known : DataType.ofTag? "QWord" = some .uint64 := by decide +kernel
  have result := decode_encodeDoubleAs (t := .uint64) rfl known ⟨0x43EFFFFFFFFFFFFF⟩ 0 .littleEndianSwap
  have whole : (⟨0x43EFFFFFFFFFFFFF⟩ : Double).held 0 18446744073709551615 = 18446744073709549568 := by
    rw [Double.held_eq]
    decide +kernel
  have converts : (clamp ⟨0x43EFFFFFFFFFFFFF⟩ "QWord").Converts 0 18446744073709551615 := by
    unfold Double.Converts
    decide +kernel
  obtain ⟨encoded, inside⟩ := result
  rw [whole] at encoded
  obtain ⟨-, _, _, -, -, below⟩ := inside converts
  exact ⟨encoded, below⟩

end Modbus.Value
