/-! The types of values held in registers, and the tags by which a configuration names them. -/
namespace Modbus

inductive DataType where
  | bool
  | uint16
  | int16
  | uint32
  | int32
  | float32
  | uint64
  | int64
  | float64
  deriving DecidableEq, Repr, Inhabited

namespace DataType

/-- Letter case does not count, for ASCII letters. -/
def ofTag? (tag : String) : Option DataType :=
  match String.ofList (tag.toList.map Char.toLower) with
  | "bool" | "boolean" | "coil" => some bool
  | "uint16" | "u16" | "word" => some uint16
  | "int16" | "i16" | "short" => some int16
  | "uint32" | "u32" | "dword" => some uint32
  | "int32" | "i32" | "long" => some int32
  | "float32" | "f32" | "float" | "real" => some float32
  | "uint64" | "u64" | "qword" => some uint64
  | "int64" | "i64" | "longlong" => some int64
  | "float64" | "f64" | "double" | "lreal" => some float64
  | _ => none

def name : DataType → String
  | bool => "bool"
  | uint16 => "uint16"
  | int16 => "int16"
  | uint32 => "uint32"
  | int32 => "int32"
  | float32 => "float32"
  | uint64 => "uint64"
  | int64 => "int64"
  | float64 => "float64"

def shortName : DataType → String
  | bool => "bool"
  | uint16 => "u16"
  | int16 => "i16"
  | uint32 => "u32"
  | int32 => "i32"
  | float32 => "f32"
  | uint64 => "u64"
  | int64 => "i64"
  | float64 => "f64"

/-- Registers that a value spans. A bool lives in a coil and spans none. -/
def registers : DataType → Nat
  | bool => 0
  | uint16 | int16 => 1
  | uint32 | int32 | float32 => 2
  | uint64 | int64 | float64 => 4

/-- Registers that a value takes when it is held in registers; a bool takes a whole one. -/
def width (t : DataType) : Nat := max t.registers 1

/-- Registers that a tag spans. An unknown tag counts as one register. -/
def registersOfTag (tag : String) : Nat :=
  match ofTag? tag with
  | some t => t.registers
  | none => 1

theorem ofTag?_name (t : DataType) : ofTag? t.name = some t := by
  cases t <;> decide +kernel

theorem ofTag?_shortName (t : DataType) : ofTag? t.shortName = some t := by
  cases t <;> decide +kernel

end DataType

end Modbus
