import Modbus.Framing
import Modbus.FunctionCode
import Modbus.ExceptionCode
import Modbus.Hex

/-! Why an operation failed. An error is its cause, with the figures that the message names; kind,
message and the rule for retrying are functions of the cause. -/
namespace Modbus

inductive ErrorKind where
  | protocol
  | bufferFull
  | wouldExceedCapacity
  | tooLarge
  | functionCodeMismatch
  | invalidData
  | invalidFunction
  | exception
  | connection
  | timeout
  | invalidBitPosition
  | insufficientRegisters
  | unsupportedType
  | cancelled
  | stalled
  deriving DecidableEq, Repr

namespace ErrorKind

def name : ErrorKind → String
  | protocol => "Protocol"
  | bufferFull => "BufferFull"
  | wouldExceedCapacity => "WouldExceedCapacity"
  | tooLarge => "TooLarge"
  | functionCodeMismatch => "FunctionCodeMismatch"
  | invalidData => "InvalidData"
  | invalidFunction => "InvalidFunction"
  | exception => "Exception"
  | connection => "Connection"
  | timeout => "Timeout"
  | invalidBitPosition => "InvalidBitPosition"
  | insufficientRegisters => "InsufficientRegisters"
  | unsupportedType => "UnsupportedType"
  | cancelled => "Cancelled"
  | stalled => "Stalled"

def all : List ErrorKind :=
  [protocol, bufferFull, wouldExceedCapacity, tooLarge, functionCodeMismatch, invalidData, invalidFunction,
    exception, connection, timeout, invalidBitPosition, insufficientRegisters, unsupportedType, cancelled, stalled]

def ofName? (text : String) : Option ErrorKind := all.find? fun k => k.name == text

theorem ofName?_name (k : ErrorKind) : ofName? k.name = some k := by
  cases k <;> decide

end ErrorKind

inductive Error where
  /-- The device answered a request of `function` with an exception response. -/
  | exception (function code : UInt8)
  | pduFull
  | pduWouldExceed (size extra : Nat)
  | pduTooLarge (size : Nat)
  | emptyResponse
  | exceptionWithoutCode
  | functionMismatch (expected actual : UInt8)
  | unsupportedFunction (code : UInt8)
  | notReadFunction (code : UInt8)
  | notBatchableWrite (code : UInt8)
  | shortBitResponse (needed : Nat)
  | registerByteCount (expected : Nat)
  | writeResponseSize (size : Nat)
  | writeAddressMismatch
  | writeValueMismatch (expected actual : UInt16)
  | readQuantity (quantity maximum : UInt16)
  | requestQuantity (function : UInt8) (quantity maximum : UInt16)
  | requestPayload (function : UInt8) (expected actual : Nat)
  | multipleCoilCount (count : Nat)
  | multipleRegisterCount (count : Nat)
  | quantityRange (quantity maximum : UInt16)
  | coilCount (count : Nat)
  | registerCount (count : Nat)
  | unsupportedType (tag : String)
  | insufficientRegisters (tag : String) (needed available : Nat)
  | bitPosition (position : UInt8)
  | mbapTooShort (size : Nat)
  | mbapProtocolId (id : UInt16)
  | mbapLength (length : UInt16)
  | mbapTruncated (expected actual : Nat)
  | mbapResponseLength
  | rtuTooShort (size : Nat)
  | rtuTooLong (size : Nat)
  | rtuChecksum
  | rtuByteCount
  | rtuResponseFunction (code : UInt8)
  | notConnected (framing : Framing)
  | writeFailed (framing : Framing)
  | flushFailed (framing : Framing)
  | readFailed (framing : Framing)
  | connectionLost
  | closed
  | timedOut (limit : Nat)
  /-- A wait without limit that no pending event can end. -/
  | stalled
  | transactionMismatch (expected actual : UInt16)
  | unitMismatch (expected actual : UInt8)
  | slaveMismatch (expected actual : UInt8)
  | chunkLimitZero
  | cancelled (address : UInt16)
  | coalescedPastEnd (count start : Nat)
  | writeLimitZero
  /-- An error reported from outside, with its own words. -/
  | reported (kind : ErrorKind) (text : String)
  deriving DecidableEq, Repr

namespace Error

def kind : Error → ErrorKind
  | exception .. => .exception
  | pduFull => .bufferFull
  | pduWouldExceed .. => .wouldExceedCapacity
  | pduTooLarge _ => .tooLarge
  | functionMismatch .. => .functionCodeMismatch
  | unsupportedFunction _ | notReadFunction _ | notBatchableWrite _ => .invalidFunction
  | readQuantity .. | requestQuantity .. | requestPayload .. | multipleCoilCount _ | multipleRegisterCount _
  | quantityRange .. | coilCount _ | registerCount _ | chunkLimitZero | coalescedPastEnd .. | writeLimitZero =>
    .invalidData
  | unsupportedType _ => .unsupportedType
  | insufficientRegisters .. => .insufficientRegisters
  | bitPosition _ => .invalidBitPosition
  | notConnected _ | writeFailed _ | flushFailed _ | readFailed _ | connectionLost | closed => .connection
  | timedOut _ => .timeout
  | stalled => .stalled
  | cancelled _ => .cancelled
  | emptyResponse | exceptionWithoutCode | shortBitResponse _ | registerByteCount _ | writeResponseSize _
  | writeAddressMismatch | writeValueMismatch .. | mbapTooShort _ | mbapProtocolId _ | mbapLength _
  | mbapTruncated .. | mbapResponseLength | rtuTooShort _ | rtuTooLong _ | rtuChecksum | rtuByteCount
  | rtuResponseFunction _ | transactionMismatch .. | unitMismatch .. | slaveMismatch .. => .protocol
  | reported kind _ => kind

def message : Error → String
  | exception function code =>
    FunctionCode.describe function ++ " (0x" ++ Hex.byte function ++ ") failed: " ++
      ExceptionCode.describe code ++ " (0x" ++ Hex.byte code ++ ")"
  | pduFull => "PDU buffer full"
  | pduWouldExceed size extra => s!"PDU would exceed max size: {size} + {extra} > {Protocol.maxPduSize}"
  | pduTooLarge size => s!"PDU too large: {size} bytes (max {Protocol.maxPduSize})"
  | emptyResponse => "Empty response PDU"
  | exceptionWithoutCode => "Exception response without exception code"
  | functionMismatch expected actual => s!"Function code mismatch: expected {expected}, got {actual}"
  | unsupportedFunction code => s!"Unsupported function code: {code}"
  | notReadFunction code => s!"Function code {code} is not a read function"
  | notBatchableWrite code => s!"Function code {code} is not a batchable write"
  | shortBitResponse needed => s!"Short bit response: need {needed} data bytes"
  | registerByteCount expected => s!"Register response byte count mismatch: expected {expected}"
  | writeResponseSize size => s!"Write response must be 5 bytes, got {size}"
  | writeAddressMismatch => "Write response address mismatch"
  | writeValueMismatch expected actual => s!"Write response value mismatch: expected {expected}, got {actual}"
  | readQuantity quantity maximum => s!"Invalid read quantity {quantity} (1-{maximum})"
  | requestQuantity function quantity maximum =>
    FunctionCode.describe function ++ s!": invalid quantity {quantity} (1-{maximum})"
  | requestPayload function expected actual =>
    FunctionCode.describe function ++ s!": expected {expected} data bytes, got {actual}"
  | multipleCoilCount count => s!"Invalid coil count for FC15: {count}"
  | multipleRegisterCount count => s!"Invalid register count for FC16: {count}"
  | quantityRange quantity maximum => s!"Invalid quantity {quantity} (1-{maximum})"
  | coilCount count => s!"Invalid coil count {count} (1-{Protocol.maxWriteCoils})"
  | registerCount count => s!"Invalid register count {count} (1-{Protocol.maxWriteRegisters})"
  | unsupportedType tag => "Unsupported data type: " ++ tag
  | insufficientRegisters tag needed available =>
    "Not enough registers for " ++ tag ++ s!": need {needed}, got {available}"
  | bitPosition position => s!"Invalid bit position: {position} (must be 0-15)"
  | mbapTooShort size => s!"MBAP frame too short: {size} bytes"
  | mbapProtocolId id => s!"Invalid MBAP protocol id {id}"
  | mbapLength length => s!"Invalid MBAP length {length}"
  | mbapTruncated expected actual => s!"Truncated MBAP frame: expected {expected} bytes, got {actual}"
  | mbapResponseLength => "Invalid MBAP length in response"
  | rtuTooShort size => s!"RTU frame too short: {size} bytes"
  | rtuTooLong size => s!"RTU frame too long: {size} bytes"
  | rtuChecksum => "RTU CRC mismatch"
  | rtuByteCount => "RTU response byte count exceeds maximum frame size"
  | rtuResponseFunction code => s!"Unexpected function code in RTU response: {code}"
  | notConnected framing => framing.linkName ++ " transport is not connected"
  | writeFailed framing => "Failed to write " ++ framing.frameName ++ " frame"
  | flushFailed framing => "Failed to flush " ++ framing.frameName ++ " frame"
  | readFailed framing => "Failed to read " ++ framing.frameName ++ " frame"
  | connectionLost => "Connection closed while waiting for response"
  | closed => "Transport closed"
  | timedOut limit => s!"No complete response within {limit} ms"
  | stalled => "No response can arrive any more"
  | transactionMismatch expected actual => s!"Transaction id mismatch: expected {expected}, got {actual}"
  | unitMismatch expected actual => s!"Unit id mismatch: expected {expected}, got {actual}"
  | slaveMismatch expected actual => s!"Slave id mismatch: expected {expected}, got {actual}"
  | chunkLimitZero => "Maximum quantity per request must be at least 1"
  | cancelled address => s!"Chunked read cancelled at address {address}"
  | coalescedPastEnd count start =>
    s!"Coalesced write of {count} registers at {start} runs past the end of the address space"
  | writeLimitZero => "Maximum registers per write must be at least 1"
  | reported _ text => text

/-- The function code named by an exception response, 0 for every other error. -/
def functionCode : Error → UInt8
  | exception function _ => function
  | _ => 0

def exceptionCode : Error → UInt8
  | exception _ code => code
  | _ => 0

/-- Framing, capacity and function code failures. -/
def isProtocolError (e : Error) : Bool :=
  match e.kind with
  | .protocol | .bufferFull | .wouldExceedCapacity | .tooLarge | .functionCodeMismatch => true
  | _ => false

/-- Timeouts, lost connections and transient exceptions may succeed when tried again. -/
def isRecoverable (e : Error) : Bool :=
  match e.kind with
  | .timeout | .connection => true
  | .exception => ExceptionCode.isTransient e.exceptionCode
  | _ => false

def text (e : Error) : String := e.kind.name ++ ": " ++ e.message

end Error

end Modbus
