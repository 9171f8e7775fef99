import Modbus.Rounding

/-! Floating-point numbers as bit patterns. A finite number is a sign and a whole number of units,
the unit being the least positive double, 2 ^ -1074; so every single and every double is exact, and
rounding is rounding of a quotient of natural numbers. Patterns are kept as they are until a value is
converted, and then a NaN keeps the upper bits of its payload and becomes a quiet one. -/
namespace Modbus.Ieee

/-- Sizes of a binary interchange format. The least positive number is 2 ^ `scale` units. -/
structure Format where
  fractionBits : Nat
  exponentBits : Nat
  scale : Nat
  deriving DecidableEq, Repr

namespace Format

def single : Format := ⟨23, 8, 925⟩

def double : Format := ⟨52, 11, 0⟩

/-- The exponent field of infinities and NaNs. -/
def top (F : Format) : Nat := (1 <<< F.exponentBits) - 1

def signBit (F : Format) : Nat := 1 <<< (F.exponentBits + F.fractionBits)

/-- The first bit of the fraction field, which a NaN has set if it is quiet. -/
def quietBit (F : Format) : Nat := 1 <<< (F.fractionBits - 1)

/-- How many bits the fraction field of a double has more. -/
def narrowing (F : Format) : Nat := double.fractionBits - F.fractionBits

end Format

/-- The payload of a NaN is its fraction field, with zeros behind it up to the width of a double. -/
inductive Datum where
  | nan (negative : Bool) (payload : Nat)
  | infinite (negative : Bool)
  | finite (negative : Bool) (units : Nat)
  deriving DecidableEq, Repr

namespace Datum

/-- Units in the number one. -/
def one : Nat := 1 <<< 1074

def ofBits (F : Format) (bits : Nat) : Datum :=
  let fraction := bits % (1 <<< F.fractionBits)
  let exponent := (bits >>> F.fractionBits) % (1 <<< F.exponentBits)
  let negative := bits / F.signBit % 2 = 1
  if exponent = F.top then
    if fraction = 0 then infinite negative else nan negative (fraction <<< F.narrowing)
  else if exponent = 0 then finite negative (fraction <<< F.scale)
  else finite negative (((1 <<< F.fractionBits) + fraction) <<< (exponent - 1 + F.scale))

/-- Bits of the nearest number of the format without its sign; a tie goes to the even pattern. The
pattern of a number is the count of positive numbers up to it, so a carry out of the fraction, and
past the largest number, needs no case of its own. -/
def roundedBits (F : Format) (units : Nat) : Nat :=
  let binade := units.log2 - F.scale - F.fractionBits
  min (F.top <<< F.fractionBits)
    ((binade <<< F.fractionBits) + Rounding.halfEven units (1 <<< (F.scale + binade)))

/-- A NaN becomes quiet, with as much of its payload as the format has room for. -/
def toBits (F : Format) : Datum → Nat
  | nan negative payload =>
    negative.toNat * F.signBit + (F.top <<< F.fractionBits) + ((payload >>> F.narrowing) ||| F.quietBit)
  | infinite negative => negative.toNat * F.signBit + (F.top <<< F.fractionBits)
  | finite negative units => negative.toNat * F.signBit + roundedBits F units

def isNaN : Datum → Bool
  | nan .. => true
  | _ => false

def isZero : Datum → Bool
  | finite _ units => units == 0
  | _ => false

/-- Units with their sign; zeros of both signs are one number. -/
def signed (negative : Bool) (units : Nat) : Int := if negative then -units else units

/-- The order of numbers. A NaN is less than nothing and nothing is less than it. -/
def less : Datum → Datum → Bool
  | nan .., _ | _, nan .. => false
  | infinite m, infinite n => m && !n
  | infinite m, finite .. => m
  | finite .., infinite n => !n
  | finite m u, finite n v => signed m u < signed n v

/-- Equality of numbers: a NaN equals nothing, zeros of both signs are equal. -/
def equal (a b : Datum) : Bool := !a.isNaN && !b.isNaN && !a.less b && !b.less a

def ofInt (i : Int) : Datum := finite (i < 0) (i.natAbs * one)

/-- The whole part of a finite number, 0 otherwise. -/
def truncate : Datum → Int
  | finite negative units => signed negative (units / one)
  | _ => 0

/-- The nearest whole number to a finite one, a tie going away from zero. -/
def nearest : Datum → Int
  | finite negative units => signed negative (Rounding.halfUp units one)
  | _ => 0

end Datum

structure Single where
  bits : UInt32
  deriving DecidableEq, Repr, Inhabited

structure Double where
  bits : UInt64
  deriving DecidableEq, Repr, Inhabited

namespace Single

def datum (x : Single) : Datum := .ofBits .single x.bits.toNat

def ofDatum (d : Datum) : Single := ⟨.ofNat (d.toBits .single)⟩

def greatest : Single := ⟨0x7F7FFFFF⟩

def least : Single := ⟨0xFF7FFFFF⟩

end Single

namespace Double

def datum (x : Double) : Datum := .ofBits .double x.bits.toNat

def ofDatum (d : Datum) : Double := ⟨.ofNat (d.toBits .double)⟩

def ofInt (i : Int) : Double := ofDatum (.ofInt i)

def ofSingle (x : Single) : Double := ofDatum x.datum

def toSingle (x : Double) : Single := .ofDatum x.datum

def greatest : Double := ⟨0x7FEFFFFFFFFFFFFF⟩

def least : Double := ⟨0xFFEFFFFFFFFFFFFF⟩

/-- A NaN is inside every range. -/
def clamp (x low high : Double) : Double :=
  if x.datum.less low.datum then low else if high.datum.less x.datum then high else x

/-- The whole part, held inside the range; a NaN counts as 0. The ends are compared as doubles, so a
number that only rounds to an end is that end too. -/
def saturate (x : Double) (low high : Int) : Int :=
  if x.datum.isNaN then 0
  else if !x.datum.less (ofInt high).datum then high
  else if !(ofInt low).datum.less x.datum then low
  else x.datum.truncate

end Double

end Modbus.Ieee
