import Modbus.DataType
import Modbus.Decimal

/-! Typed values read from registers or about to be written to them. Floats are bit patterns. -/
namespace Modbus

open Ieee (Single Double Datum)

inductive Value where
  | bool (b : Bool)
  | u16 (n : UInt16)
  | i16 (n : Int16)
  | u32 (n : UInt32)
  | i32 (n : Int32)
  | f32 (x : Single)
  | u64 (n : UInt64)
  | i64 (n : Int64)
  | f64 (x : Double)
  deriving DecidableEq, Repr

namespace Value

instance : Inhabited Value := ⟨u16 0⟩

def type : Value → DataType
  | bool _ => .bool
  | u16 _ => .uint16
  | i16 _ => .int16
  | u32 _ => .uint32
  | i32 _ => .int32
  | f32 _ => .float32
  | u64 _ => .uint64
  | i64 _ => .int64
  | f64 _ => .float64

/-- The whole number that an integer or a bool is; floats have none. -/
def int? : Value → Option Int
  | bool b => some b.toNat
  | u16 n => some n.toNat
  | i16 n => some n.toInt
  | u32 n => some n.toNat
  | i32 n => some n.toInt
  | u64 n => some n.toNat
  | i64 n => some n.toInt
  | f32 _ | f64 _ => none

/-- The nearest double. Only 64-bit integers beyond 2 ^ 53 are not exact. -/
def toDouble : Value → Double
  | f32 x => .ofSingle x
  | f64 x => x
  | bool b => .ofInt b.toNat
  | u16 n => .ofInt n.toNat
  | i16 n => .ofInt n.toInt
  | u32 n => .ofInt n.toNat
  | i32 n => .ofInt n.toInt
  | u64 n => .ofInt n.toNat
  | i64 n => .ofInt n.toInt

/-- A float in the range of 64-bit integers, rounded to the nearest one, ties away from zero. -/
def roundToInt64? (x : Datum) : Option Int64 :=
  if x.isNaN || x.less (.ofInt (-(1 <<< 63 : Nat))) || !x.less (.ofInt (1 <<< 63 : Nat)) then none
  else some (.ofInt x.nearest)

/-- Unsigned values above the signed range wrap. -/
def toInt64? : Value → Option Int64
  | f32 x => roundToInt64? x.datum
  | f64 x => roundToInt64? x.datum
  | bool b => some (.ofInt b.toNat)
  | u16 n => some (.ofInt n.toNat)
  | i16 n => some (.ofInt n.toInt)
  | u32 n => some (.ofInt n.toNat)
  | i32 n => some (.ofInt n.toInt)
  | u64 n => some (.ofInt n.toNat)
  | i64 n => some n

/-- False, 0 and the zeros of both signs. -/
def isZero : Value → Bool
  | f32 x => x.datum.isZero
  | f64 x => x.datum.isZero
  | bool b => !b
  | u16 n => n == 0
  | i16 n => n == 0
  | u32 n => n == 0
  | i32 n => n == 0
  | u64 n => n == 0
  | i64 n => n == 0

/-- Equality as numbers of one type: values of two types differ, floats follow the rules of floats. -/
def equal : Value → Value → Bool
  | f32 x, f32 y => x.datum.equal y.datum
  | f64 x, f64 y => x.datum.equal y.datum
  | v, w => v == w

def text : Value → String
  | bool b => if b then "true" else "false"
  | f32 x => Decimal.Style.general.text x.datum
  | f64 x => Decimal.Style.general.text x.datum
  | u16 n => toString n.toNat
  | i16 n => toString n.toInt
  | u32 n => toString n.toNat
  | i32 n => toString n.toInt
  | u64 n => toString n.toNat
  | i64 n => toString n.toInt

end Value

end Modbus
