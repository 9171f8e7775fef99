/-! Byte orders of values that span registers. Two independent choices make up an order: whether
the words come last register first, and whether each word comes low byte first. -/
namespace Modbus

/-- `littleEndianSwap` swaps bytes inside words only, `bigEndianSwap` swaps words only. The two
16-bit orders are meant for single registers. -/
inductive ByteOrder where
  | bigEndian
  | littleEndian
  | bigEndianSwap
  | littleEndianSwap
  | bigEndian16
  | littleEndian16
  deriving DecidableEq, Repr, Inhabited

namespace ByteOrder

/-- Letter case, hyphens and underscores do not count: "cd-ab" and "BIG_ENDIAN_SWAP" are names. Only
ASCII letters have a case here. -/
def ofText? (text : String) : Option ByteOrder :=
  let letters := (text.toList.filter fun c => c != '-' && c != '_').map Char.toUpper
  match String.ofList letters with
  | "ABCD" | "BE" | "BIGENDIAN" | "ABCDEFGH" => some bigEndian
  | "DCBA" | "LE" | "LITTLEENDIAN" | "HGFEDCBA" => some littleEndian
  | "CDAB" | "BIGENDIANSWAP" => some bigEndianSwap
  | "BADC" | "LITTLEENDIANSWAP" => some littleEndianSwap
  | "AB" => some bigEndian16
  | "BA" => some littleEndian16
  | _ => none

def name : ByteOrder → String
  | bigEndian => "ABCD (Big-Endian)"
  | littleEndian => "DCBA (Little-Endian)"
  | bigEndianSwap => "CDAB (Big-Endian Swap)"
  | littleEndianSwap => "BADC (Little-Endian Swap)"
  | bigEndian16 => "AB (Big-Endian 16)"
  | littleEndian16 => "BA (Little-Endian 16)"

def is16BitOnly : ByteOrder → Bool
  | bigEndian16 | littleEndian16 => true
  | _ => false

def isLittleEndian : ByteOrder → Bool
  | littleEndian | littleEndianSwap | littleEndian16 => true
  | _ => false

def isBigEndian (o : ByteOrder) : Bool := !o.isLittleEndian

def hasWordSwap : ByteOrder → Bool
  | bigEndianSwap | littleEndianSwap => true
  | _ => false

/-- Whether the last register holds the most significant word. -/
def reversesWords : ByteOrder → Bool
  | littleEndian | littleEndian16 | bigEndianSwap => true
  | _ => false

/-- Whether each register holds its word low byte first. -/
def swapsBytes : ByteOrder → Bool
  | littleEndian | littleEndian16 | littleEndianSwap => true
  | _ => false

end ByteOrder

end Modbus
