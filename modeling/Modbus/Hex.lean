/-! Hexadecimal text of bytes: two upper-case digits a byte. -/
namespace Modbus.Hex

def digit (n : Nat) : Char := "0123456789ABCDEF".toList.getD n '0'

def byte (b : UInt8) : String := String.ofList [digit (b.toNat / 16), digit (b.toNat % 16)]

def dump (bytes : List UInt8) : String := " ".intercalate (bytes.map byte)

end Modbus.Hex
