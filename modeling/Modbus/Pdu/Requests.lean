import Modbus.Bits
import Modbus.Pdu.Assembly

/-! Request messages from their arguments, with the ceilings of the protocol checked. -/
namespace Modbus.Pdu

open Protocol (maxWriteCoils maxWriteRegisters coilWord)

def readRequest (function : UInt8) (address quantity : UInt16) : Except Error Pdu :=
  if !FunctionCode.isRead function then .error (.notReadFunction function)
  else if quantity = 0 ∨ FunctionCode.maxReadQuantity function < quantity then
    .error (.readQuantity quantity (FunctionCode.maxReadQuantity function))
  else assemble [.functionCode function, .address address, .quantity quantity]

def writeCoilRequest (address : UInt16) (value : Bool) : Except Error Pdu :=
  assemble [.functionCode FunctionCode.writeSingleCoil.toByte, .address address, .word (coilWord value)]

def writeRegisterRequest (address value : UInt16) : Except Error Pdu :=
  assemble [.functionCode FunctionCode.writeSingleRegister.toByte, .address address, .word value]

def writeCoilsRequest (address : UInt16) (values : List Bool) : Except Error Pdu :=
  if values.length = 0 ∨ maxWriteCoils.toNat < values.length then .error (.multipleCoilCount values.length)
  else
    let packed := Bits.pack values
    assemble [.functionCode FunctionCode.writeMultipleCoils.toByte, .address address,
      .quantity (.ofNat values.length), .byte (.ofNat packed.length), .data packed]

def writeRegistersRequest (address : UInt16) (values : List UInt16) : Except Error Pdu :=
  if values.length = 0 ∨ maxWriteRegisters.toNat < values.length then
    .error (.multipleRegisterCount values.length)
  else
    assemble ([.functionCode FunctionCode.writeMultipleRegisters.toByte, .address address,
      .quantity (.ofNat values.length), .byte (.ofNat (values.length * 2))] ++ values.map .word)

end Modbus.Pdu
