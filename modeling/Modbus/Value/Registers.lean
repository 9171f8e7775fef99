import Modbus.ByteOrder.Registers
import Modbus.Error
import Modbus.Value

/-! Typed values in registers. A value of the tag's own type is laid out exactly; any other value is
first converted to a double, then held inside the range of the tag's type. -/
namespace Modbus.Value

open Ieee (Double)

/-- Lays a value out by its own type. A bool takes one register that holds 0 or 1. -/
def encode (v : Value) (o : ByteOrder) : List UInt16 :=
  match v with
  | bool b => [if b then 1 else 0]
  | u16 n => [o.word n]
  | i16 n => [o.word n.toUInt16]
  | u32 n => o.encode 2 n.toNat
  | i32 n => o.encode 2 n.toUInt32.toNat
  | f32 x => o.encode 2 x.bits.toNat
  | u64 n => o.encode 4 n.toNat
  | i64 n => o.encode 4 n.toUInt64.toNat
  | f64 x => o.encode 4 x.bits.toNat

/-- The value of type `t` in exactly the registers that it takes; `none` for another number of them. -/
def decodeExact? (t : DataType) (o : ByteOrder) (bit : Nat) (registers : List UInt16) : Option Value :=
  match t, registers with
  | .bool, [r] => some (bool (r.toNat.testBit bit))
  | .uint16, [r] => some (u16 (o.word r))
  | .int16, [r] => some (i16 (o.word r).toInt16)
  | .uint32, [_, _] => some (u32 (.ofNat (o.decode registers)))
  | .int32, [_, _] => some (i32 (UInt32.ofNat (o.decode registers)).toInt32)
  | .float32, [_, _] => some (f32 ⟨.ofNat (o.decode registers)⟩)
  | .uint64, [_, _, _, _] => some (u64 (.ofNat (o.decode registers)))
  | .int64, [_, _, _, _] => some (i64 (UInt64.ofNat (o.decode registers)).toInt64)
  | .float64, [_, _, _, _] => some (f64 ⟨.ofNat (o.decode registers)⟩)
  | _, _ => none

/-- Reads the first registers as a value of the tagged type; further registers do not count. A bool is
the bit `bit` of the first register. -/
def decode (registers : List UInt16) (tag : String) (bit : UInt8) (o : ByteOrder) : Except Error Value :=
  match DataType.ofTag? tag with
  | none => .error (.unsupportedType tag)
  | some t =>
    match decodeExact? t o bit.toNat (registers.take t.width) with
    | none => .error (.insufficientRegisters tag t.width registers.length)
    | some v => if t = .bool ∧ 15 < bit then .error (.bitPosition bit) else .ok v

/-- The whole numbers that an integer type holds. -/
def intRange? : DataType → Option (Int × Int)
  | .uint16 => some (0, 65535)
  | .int16 => some (-32768, 32767)
  | .uint32 => some (0, 4294967295)
  | .int32 => some (-2147483648, 2147483647)
  | .uint64 => some (0, 18446744073709551615)
  | .int64 => some (-9223372036854775808, 9223372036854775807)
  | .bool | .float32 | .float64 => none

/-- The range of a type as doubles. A bool has none: every number is a truth value. -/
def range? : DataType → Option (Double × Double)
  | .bool => none
  | .float32 => some (.ofSingle .least, .ofSingle .greatest)
  | .float64 => some (.least, .greatest)
  | t => (intRange? t).map fun (low, high) => (.ofInt low, .ofInt high)

/-- Holds a number inside the range of a type. -/
def clampTo (t : DataType) (x : Double) : Double :=
  match range? t with
  | some (low, high) => x.clamp low high
  | none => x

/-- An unknown tag leaves the number as it is. -/
def clamp (x : Double) (tag : String) : Double :=
  match DataType.ofTag? tag with
  | some t => clampTo t x
  | none => x

/-- Converts a number to a type. Integers drop the fraction, and a bool is true for every number but
zero. -/
def ofDouble (t : DataType) (x : Double) : Value :=
  let clamped := clampTo t x
  let whole := match intRange? t with
    | some (low, high) => clamped.saturate low high
    | none => 0
  match t with
  | .bool => bool !clamped.datum.isZero
  | .uint16 => u16 (.ofInt whole)
  | .int16 => i16 (.ofInt whole)
  | .uint32 => u32 (.ofInt whole)
  | .int32 => i32 (.ofInt whole)
  | .float32 => f32 clamped.toSingle
  | .uint64 => u64 (.ofInt whole)
  | .int64 => i64 (.ofInt whole)
  | .float64 => f64 clamped

def encodeDoubleAs (x : Double) (tag : String) (o : ByteOrder) : Except Error (List UInt16) :=
  match DataType.ofTag? tag with
  | none => .error (.unsupportedType tag)
  | some t => .ok ((ofDouble t x).encode o)

def encodeAs (v : Value) (tag : String) (o : ByteOrder) : Except Error (List UInt16) :=
  match DataType.ofTag? tag with
  | none => .error (.unsupportedType tag)
  | some t => if v.type = t then .ok (v.encode o) else encodeDoubleAs v.toDouble tag o

end Modbus.Value
