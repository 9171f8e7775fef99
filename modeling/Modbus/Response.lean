import Modbus.Bits
import Modbus.Pdu
import Modbus.Word

/-! What a response message says. `bits` and `registers` ask for the byte count that the request
implies; `values` takes what is there. -/
namespace Modbus.Response

/-- A response to a request of `function` that is not an exception. -/
def check (p : Pdu) (function : UInt8) : Except Error Unit :=
  match p.functionCode? with
  | none => .error .emptyResponse
  | some actual =>
    if FunctionCode.isException actual then
      match p.exceptionCode? with
      | none => .error .exceptionWithoutCode
      | some code => .error (.exception (FunctionCode.withoutException actual) code)
    else if actual ≠ function then .error (.functionMismatch function actual)
    else .ok ()

/-- The values of a read response, as many as there are whole: bytes for bit reads, words for register
reads. The byte count is an upper bound only and how many values were asked for plays no part; a message
without a byte count has no values, and exceptions are not told apart from other function codes. -/
def values (p : Pdu) (function : UInt8) : Except Error (List UInt16) :=
  match p.bytes with
  | actual :: count :: rest =>
    if actual ≠ function then .error (.functionMismatch function actual)
    else
      let data := rest.take count.toNat
      if FunctionCode.isBitRead function then .ok (data.map UInt8.toUInt16)
      else if FunctionCode.isRead function then .ok (Word.ofPairs data)
      else .error (.unsupportedFunction function)
  | _ => .ok []

/-- The first `quantity` bits of a bit response, which may have more bytes than they need but must hold
as many as it announces. -/
def bits (p : Pdu) (function : UInt8) (quantity : UInt16) : Except Error (List Bool) := do
  check p function
  let needed := Bits.byteCount quantity.toNat
  match p.bytes with
  | _ :: count :: data =>
    if count.toNat < needed ∨ data.length < count.toNat then .error (.shortBitResponse needed)
    else .ok ((Bits.unpack data).take quantity.toNat)
  | _ => .error (.shortBitResponse needed)

/-- The registers of a register response, which must announce exactly `quantity` of them. -/
def registers (p : Pdu) (function : UInt8) (quantity : UInt16) : Except Error (List UInt16) := do
  check p function
  let needed := 2 * quantity.toNat
  match p.bytes with
  | _ :: count :: data =>
    if count.toNat ≠ needed ∨ data.length < needed then .error (.registerByteCount needed)
    else .ok (Word.ofPairs (data.take needed))
  | _ => .error (.registerByteCount needed)

/-- A write is answered by its address and its value or quantity. -/
def checkEcho (p : Pdu) (function : UInt8) (address word : UInt16) : Except Error Unit := do
  check p function
  match p.bytes with
  | [_, addressHigh, addressLow, high, low] =>
    if Word.ofBytes addressHigh addressLow ≠ address then .error .writeAddressMismatch
    else if Word.ofBytes high low ≠ word then .error (.writeValueMismatch word (Word.ofBytes high low))
    else .ok ()
  | bytes => .error (.writeResponseSize bytes.length)

end Modbus.Response
