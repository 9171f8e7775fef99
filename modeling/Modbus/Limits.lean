import Modbus.Protocol

/-! What a device accepts in one request, and the pause it needs between requests. -/
namespace Modbus

structure Limits where
  maxReadRegisters : UInt16 := Protocol.maxReadRegisters
  maxWriteRegisters : UInt16 := Protocol.maxWriteRegisters
  maxReadCoils : UInt16 := Protocol.maxReadCoils
  maxWriteCoils : UInt16 := Protocol.maxWriteCoils
  delayMs : Nat := 0
  deriving DecidableEq, Repr

namespace Limits

instance : Inhabited Limits := ⟨{}⟩

/-- For devices that take less than the protocol allows. -/
def conservative : Limits := ⟨50, 50, 500, 500, 10⟩

/-- Requests that a total takes; none if the ceiling is 0, which allows no request. -/
def requestCount (total ceiling : UInt16) : UInt16 :=
  if ceiling = 0 then 0 else .ofNat ((total.toNat + ceiling.toNat - 1) / ceiling.toNat)

def readRequestCount (l : Limits) (total : UInt16) : UInt16 := requestCount total l.maxReadRegisters

def writeRequestCount (l : Limits) (total : UInt16) : UInt16 := requestCount total l.maxWriteRegisters

def allowsRead (l : Limits) (count : UInt16) : Bool := count ≤ l.maxReadRegisters

def allowsWrite (l : Limits) (count : UInt16) : Bool := count ≤ l.maxWriteRegisters

def allowsCoilRead (l : Limits) (count : UInt16) : Bool := count ≤ l.maxReadCoils

def allowsCoilWrite (l : Limits) (count : UInt16) : Bool := count ≤ l.maxWriteCoils

end Limits

end Modbus
