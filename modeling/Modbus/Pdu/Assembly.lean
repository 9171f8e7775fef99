import Modbus.Pdu.Buffer

/-! A message assembled from parts. The first part that does not fit decides the outcome: no later
part is looked at. -/
namespace Modbus.Pdu

inductive Part where
  | functionCode (code : UInt8)
  | address (address : UInt16)
  | quantity (quantity : UInt16)
  | word (word : UInt16)
  | byte (byte : UInt8)
  | data (bytes : List UInt8)
  deriving DecidableEq, Repr

def Part.bytes : Part → List UInt8
  | functionCode code => [code]
  | address a => Word.bytes a
  | quantity q => Word.bytes q
  | word w => Word.bytes w
  | byte b => [b]
  | data bytes => bytes

def Buffer.append (b : Buffer) : Part → Except Error Buffer
  | .functionCode code => b.push code
  | .address a => b.pushWord a
  | .quantity q => b.pushWord q
  | .word w => b.pushWord w
  | .byte x => b.push x
  | .data xs => b.extend xs

/-- A message under construction. The first error is kept, and with it everything stays as it is. -/
structure Builder where
  buffer : Buffer := .empty
  error? : Option Error := none

namespace Builder

def add (b : Builder) (part : Part) : Builder :=
  match b.error? with
  | some _ => b
  | none =>
    match b.buffer.append part with
    | .ok buffer => { b with buffer }
    | .error e => { b with error? := some e }

def build (b : Builder) : Except Error Pdu :=
  match b.error? with
  | some e => .error e
  | none => .ok b.buffer.toPdu

end Builder

def assemble (parts : List Part) : Except Error Pdu := (parts.foldl Builder.add {}).build

theorem Buffer.bytes_of_append {b c : Buffer} {part : Part} (done : b.append part = .ok c) :
    c.bytes = b.bytes ++ part.bytes := by
  cases part with
  | functionCode code => exact bytes_of_push done
  | address a => exact bytes_of_pushWord done
  | quantity q => exact bytes_of_pushWord done
  | word w => exact bytes_of_pushWord done
  | byte x => exact bytes_of_push done
  | data xs => exact bytes_of_extend done

end Modbus.Pdu
