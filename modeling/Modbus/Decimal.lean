import Modbus.Ieee

/-! Decimal text of floating-point numbers with a fixed number of significant digits. Rounding is
exact, on the number that the bit pattern denotes. -/
namespace Modbus.Decimal

/-- How a number is written: its significant digits, and the least power of ten of the first digit
that is still written without an exponent. -/
structure Style where
  precision : Nat
  leastFixed : Int
  exponentWidth : Nat

/-- Six digits; an exponent of at least two digits below one ten-thousandth and from one million. -/
def Style.general : Style := ⟨6, -4, 2⟩

/-- The power of ten of the first digit of a positive quotient. -/
def magnitude (n d : Nat) : Int :=
  if d ≤ n then (Nat.toDigits 10 (n / d)).length - 1
  else -(Nat.toDigits 10 ((d + n - 1) / n - 1)).length

/-- A positive quotient rounded to `precision` digits: the digits as a number, and the power of ten of
the first of them. -/
def significant (precision n d : Nat) : Nat × Int :=
  let exponent := magnitude n d
  let shift := exponent - (precision - 1 : Nat)
  let rounded := Rounding.halfEven (n * Nat.pow 10 (-shift).toNat) (d * Nat.pow 10 shift.toNat)
  if rounded = Nat.pow 10 precision then (Nat.pow 10 (precision - 1), exponent + 1) else (rounded, exponent)

def dropTrailingZeros (digits : List Char) : List Char := (digits.reverse.dropWhile (· == '0')).reverse

def withFraction (whole fraction : List Char) : List Char :=
  match dropTrailingZeros fraction with
  | [] => whole
  | digits => whole ++ '.' :: digits

def exponentText (width : Nat) (exponent : Int) : List Char :=
  let digits := Nat.toDigits 10 exponent.natAbs
  'e' :: (if exponent < 0 then '-' else '+') :: (List.replicate (width - digits.length) '0' ++ digits)

/-- Text of a positive quotient. -/
def Style.render (style : Style) (n d : Nat) : List Char :=
  let (number, exponent) := significant style.precision n d
  let digits := Nat.toDigits 10 number
  if exponent < style.leastFixed ∨ (style.precision : Int) ≤ exponent then
    withFraction (digits.take 1) (digits.drop 1) ++ exponentText style.exponentWidth exponent
  else if exponent < 0 then
    withFraction ['0'] (List.replicate (exponent.natAbs - 1) '0' ++ digits)
  else
    withFraction (digits.take (exponent.toNat + 1)) (digits.drop (exponent.toNat + 1))

def Style.text (style : Style) (x : Ieee.Datum) : String :=
  let sign := fun negative : Bool => if negative then "-" else ""
  match x with
  | .nan negative _ => sign negative ++ "nan"
  | .infinite negative => sign negative ++ "inf"
  | .finite negative 0 => sign negative ++ "0"
  | .finite negative units => sign negative ++ String.ofList (style.render units Ieee.Datum.one)

end Modbus.Decimal
