import Modbus.Error

/-! The message of one request or response without its framing: a function code and data, 253 bytes
at most. -/
namespace Modbus

structure Pdu where
  bytes : List UInt8
  length_le : bytes.length ≤ Protocol.maxPduSize
  deriving DecidableEq

namespace Pdu

theorem ext {p q : Pdu} (same : p.bytes = q.bytes) : p = q := by
  cases p
  cases q
  cases same
  rfl

def empty : Pdu := ⟨[], Nat.zero_le _⟩

instance : Inhabited Pdu := ⟨empty⟩

def ofBytes (bytes : List UInt8) : Except Error Pdu :=
  if h : bytes.length ≤ Protocol.maxPduSize then .ok ⟨bytes, h⟩ else .error (.pduTooLarge bytes.length)

def take (n : Nat) (p : Pdu) : Pdu :=
  ⟨p.bytes.take n, Nat.le_trans (List.length_take_le' n p.bytes) p.length_le⟩

def functionCode? (p : Pdu) : Option UInt8 := p.bytes.head?

def isException (p : Pdu) : Bool := p.functionCode?.any FunctionCode.isException

def exceptionCode? (p : Pdu) : Option UInt8 := if p.isException then p.bytes[1]? else none

theorem ofBytes_eq_ok_iff {bytes : List UInt8} {p : Pdu} : ofBytes bytes = .ok p ↔ p.bytes = bytes := by
  unfold ofBytes
  split
  case isTrue h => exact ⟨fun same => by cases same; rfl, fun same => by cases same; rfl⟩
  case isFalse h => exact ⟨fun same => (nomatch same), fun same => absurd (same ▸ p.length_le) h⟩

end Pdu

end Modbus
