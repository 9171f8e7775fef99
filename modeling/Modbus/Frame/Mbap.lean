import Modbus.Pdu
import Modbus.Word

/-! Frames of Modbus TCP: a header of seven bytes, whose length field counts the unit id and the
message, and the message. -/
namespace Modbus.Mbap

structure Header where
  transactionId : UInt16
  protocolId : UInt16
  length : UInt16
  unitId : UInt8
  deriving DecidableEq, Repr

def headerSize : Nat := 7

structure Adu where
  header : Header
  pdu : Pdu
  deriving DecidableEq

def encode (transactionId : UInt16) (unitId : UInt8) (pdu : Pdu) : List UInt8 :=
  Word.bytes transactionId ++ Word.bytes 0 ++ Word.bytes (.ofNat (1 + pdu.bytes.length)) ++ unitId :: pdu.bytes

def header? : List UInt8 → Option Header
  | t₁ :: t₂ :: p₁ :: p₂ :: l₁ :: l₂ :: unitId :: _ =>
    some ⟨Word.ofBytes t₁ t₂, Word.ofBytes p₁ p₂, Word.ofBytes l₁ l₂, unitId⟩
  | _ => none

/-- Whether the length field leaves room for a message of at least one byte and at most 253. -/
def Header.lengthValid (h : Header) : Bool := 2 ≤ h.length && h.length.toNat ≤ Protocol.maxMbapLength

/-- Size of the frame that the header announces; the length field counts from the unit id on. -/
def Header.frameSize (h : Header) : Nat := 6 + h.length.toNat

/-- The frame at the start of the bytes; bytes after it do not count. -/
def decode (frame : List UInt8) : Except Error Adu :=
  match header? frame with
  | none => .error (.mbapTooShort frame.length)
  | some h =>
    if h.protocolId ≠ 0 then .error (.mbapProtocolId h.protocolId)
    else if !h.lengthValid then .error (.mbapLength h.length)
    else if frame.length < h.frameSize then .error (.mbapTruncated h.frameSize frame.length)
    else do
      let pdu ← Pdu.ofBytes ((frame.take h.frameSize).drop headerSize)
      return ⟨h, pdu⟩

def expectedSize? (frame : List UInt8) : Option Nat := (header? frame).map Header.frameSize

def isComplete (frame : List UInt8) : Bool := (expectedSize? frame).any (· ≤ frame.length)

end Modbus.Mbap
