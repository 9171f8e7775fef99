import Modbus.Crc16
import Modbus.Pdu

/-! Frames of a serial line: slave id, message, checksum. They carry no length, so a receiver derives
the size of a response from its function code. -/
namespace Modbus.Rtu

structure Adu where
  slave : UInt8
  pdu : Pdu
  deriving DecidableEq

def maxFrameSize : Nat := 256

/-- Slave id, function code and checksum. -/
def minFrameSize : Nat := 4

def encode (slave : UInt8) (pdu : Pdu) : List UInt8 :=
  let body := slave :: pdu.bytes
  body ++ Crc16.trailer body

def decode (frame : List UInt8) : Except Error Adu :=
  if frame.length < minFrameSize then .error (.rtuTooShort frame.length)
  else if maxFrameSize < frame.length then .error (.rtuTooLong frame.length)
  else if !Crc16.verify frame then .error .rtuChecksum
  else do
    let pdu ← Pdu.ofBytes ((frame.take (frame.length - 2)).drop 1)
    return ⟨frame.headD 0, pdu⟩

/-- Size of the response that starts with these bytes: `none` while they do not tell, and for function
codes whose responses have no known size. -/
def expectedSize? : List UInt8 → Option Nat
  | _ :: function :: rest =>
    if FunctionCode.isException function then some 5
    else match FunctionCode.ofByte? function with
      | some .readCoils | some .readDiscreteInputs | some .readHoldingRegisters | some .readInputRegisters
      | some .readWriteMultipleRegisters => rest.head?.map fun count => 5 + count.toNat
      | some .writeSingleCoil | some .writeSingleRegister | some .writeMultipleCoils
      | some .writeMultipleRegisters => some 8
      | none => none
  | _ => none

def isComplete (frame : List UInt8) : Bool := (expectedSize? frame).any (· ≤ frame.length)

end Modbus.Rtu
