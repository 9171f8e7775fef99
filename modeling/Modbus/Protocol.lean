/-! Sizes, ceilings and fixed values of the protocol. -/
namespace Modbus.Protocol

/-- A serial frame has 256 bytes; slave id and checksum leave 253 for function code and data. -/
def maxPduSize : Nat := 253

/-- The length field of an MBAP header counts the unit id and the PDU. -/
def maxMbapLength : Nat := 1 + maxPduSize

def maxReadRegisters : UInt16 := 125

def maxWriteRegisters : UInt16 := 123

def maxReadCoils : UInt16 := 2000

def maxWriteCoils : UInt16 := 1968

def addressSpaceSize : Nat := 0x10000

def coilOn : UInt16 := 0xFF00

def coilOff : UInt16 := 0x0000

def coilWord (value : Bool) : UInt16 := if value then coilOn else coilOff

def defaultTcpPort : UInt16 := 502

def defaultTimeoutMs : Nat := 1000

end Modbus.Protocol
