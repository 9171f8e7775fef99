import Modbus.Word

/-! The checksum of serial frames: the CRC with polynomial 0x8005, least significant bit first,
starting from all ones. The frame carries its low byte first. -/
namespace Modbus.Crc16

/-- The polynomial with its bits reversed, as the register shifts right. -/
def polynomial : UInt16 := 0xA001

def shift (crc : UInt16) : UInt16 :=
  if crc % 2 = 1 then (crc >>> 1) ^^^ polynomial else crc >>> 1

def shifts : Nat → UInt16 → UInt16
  | 0, crc => crc
  | n + 1, crc => shifts n (shift crc)

def update (crc : UInt16) (byte : UInt8) : UInt16 := shifts 8 (crc ^^^ byte.toUInt16)

def compute (bytes : List UInt8) : UInt16 := bytes.foldl update 0xFFFF

def trailer (bytes : List UInt8) : List UInt8 :=
  let crc := compute bytes
  [Word.low crc, Word.high crc]

/-- Whether the last two bytes are the checksum of all bytes before them. -/
def verify (frame : List UInt8) : Bool :=
  2 ≤ frame.length && frame.drop (frame.length - 2) == trailer (frame.take (frame.length - 2))

end Modbus.Crc16
