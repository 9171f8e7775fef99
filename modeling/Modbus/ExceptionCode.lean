/-! Exception codes, by which a device explains why it refused a request. -/
namespace Modbus

inductive ExceptionCode where
  | illegalFunction
  | illegalDataAddress
  | illegalDataValue
  | serverDeviceFailure
  | acknowledge
  | serverDeviceBusy
  | memoryParityError
  | gatewayPathUnavailable
  | gatewayTargetFailedToRespond
  deriving DecidableEq, Repr

namespace ExceptionCode

def toByte : ExceptionCode → UInt8
  | illegalFunction => 0x01
  | illegalDataAddress => 0x02
  | illegalDataValue => 0x03
  | serverDeviceFailure => 0x04
  | acknowledge => 0x05
  | serverDeviceBusy => 0x06
  | memoryParityError => 0x08
  | gatewayPathUnavailable => 0x0A
  | gatewayTargetFailedToRespond => 0x0B

def ofByte? : UInt8 → Option ExceptionCode
  | 0x01 => some illegalFunction
  | 0x02 => some illegalDataAddress
  | 0x03 => some illegalDataValue
  | 0x04 => some serverDeviceFailure
  | 0x05 => some acknowledge
  | 0x06 => some serverDeviceBusy
  | 0x08 => some memoryParityError
  | 0x0A => some gatewayPathUnavailable
  | 0x0B => some gatewayTargetFailedToRespond
  | _ => none

def name : ExceptionCode → String
  | illegalFunction => "Illegal Function"
  | illegalDataAddress => "Illegal Data Address"
  | illegalDataValue => "Illegal Data Value"
  | serverDeviceFailure => "Server Device Failure"
  | acknowledge => "Acknowledge"
  | serverDeviceBusy => "Server Device Busy"
  | memoryParityError => "Memory Parity Error"
  | gatewayPathUnavailable => "Gateway Path Unavailable"
  | gatewayTargetFailedToRespond => "Gateway Target Device Failed to Respond"

def describe (code : UInt8) : String :=
  match ofByte? code with
  | some e => e.name
  | none => "Unknown Exception"

/-- The device has not refused for good: it is working on the request, or was busy. -/
def isTransient (code : UInt8) : Bool :=
  match ofByte? code with
  | some acknowledge | some serverDeviceBusy => true
  | _ => false

@[simp] theorem ofByte?_toByte (e : ExceptionCode) : ofByte? e.toByte = some e := by
  cases e <;> rfl

end ExceptionCode

end Modbus
