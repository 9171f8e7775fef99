import Modbus.Protocol

/-! Function codes. Requests and responses carry any byte; `ofByte?` recognises the nine codes that
have a meaning, and a response announces an exception by setting the high bit of its code. -/
namespace Modbus

inductive FunctionCode where
  | readCoils
  | readDiscreteInputs
  | readHoldingRegisters
  | readInputRegisters
  | writeSingleCoil
  | writeSingleRegister
  | writeMultipleCoils
  | writeMultipleRegisters
  | readWriteMultipleRegisters
  deriving DecidableEq, Repr

namespace FunctionCode

def toByte : FunctionCode → UInt8
  | readCoils => 0x01
  | readDiscreteInputs => 0x02
  | readHoldingRegisters => 0x03
  | readInputRegisters => 0x04
  | writeSingleCoil => 0x05
  | writeSingleRegister => 0x06
  | writeMultipleCoils => 0x0F
  | writeMultipleRegisters => 0x10
  | readWriteMultipleRegisters => 0x17

def ofByte? : UInt8 → Option FunctionCode
  | 0x01 => some readCoils
  | 0x02 => some readDiscreteInputs
  | 0x03 => some readHoldingRegisters
  | 0x04 => some readInputRegisters
  | 0x05 => some writeSingleCoil
  | 0x06 => some writeSingleRegister
  | 0x0F => some writeMultipleCoils
  | 0x10 => some writeMultipleRegisters
  | 0x17 => some readWriteMultipleRegisters
  | _ => none

def name : FunctionCode → String
  | readCoils => "Read Coils"
  | readDiscreteInputs => "Read Discrete Inputs"
  | readHoldingRegisters => "Read Holding Registers"
  | readInputRegisters => "Read Input Registers"
  | writeSingleCoil => "Write Single Coil"
  | writeSingleRegister => "Write Single Register"
  | writeMultipleCoils => "Write Multiple Coils"
  | writeMultipleRegisters => "Write Multiple Registers"
  | readWriteMultipleRegisters => "Read/Write Multiple Registers"

def isException (code : UInt8) : Bool := 0x80 ≤ code

def withoutException (code : UInt8) : UInt8 := code % 0x80

/-- Name for diagnostics. The exception bit is ignored. -/
def describe (code : UInt8) : String :=
  match ofByte? (withoutException code) with
  | some f => f.name
  | none => "Unknown Function"

/-- The four plain reads; the combined read and write is not one of them. -/
def isRead (code : UInt8) : Bool :=
  match ofByte? code with
  | some readCoils | some readDiscreteInputs | some readHoldingRegisters | some readInputRegisters => true
  | _ => false

/-- Reads whose answer is packed bits. -/
def isBitRead (code : UInt8) : Bool :=
  match ofByte? code with
  | some readCoils | some readDiscreteInputs => true
  | _ => false

/-- Writes, which a serial line may broadcast. -/
def isWrite (code : UInt8) : Bool :=
  match ofByte? code with
  | some writeSingleCoil | some writeSingleRegister | some writeMultipleCoils | some writeMultipleRegisters =>
    true
  | _ => false

/-- How many coils or registers one request of this code may read. -/
def maxReadQuantity (code : UInt8) : UInt16 :=
  if isBitRead code then Protocol.maxReadCoils else Protocol.maxReadRegisters

@[simp] theorem ofByte?_toByte (f : FunctionCode) : ofByte? f.toByte = some f := by
  cases f <;> rfl

theorem ofByte?_eq_some_iff {code : UInt8} {f : FunctionCode} : ofByte? code = some f ↔ code = f.toByte := by
  constructor
  · intro h
    unfold ofByte? at h
    split at h <;> simp at h <;> subst h <;> rfl
  · rintro rfl
    simp

end FunctionCode

end Modbus
