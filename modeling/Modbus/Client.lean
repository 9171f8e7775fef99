import Modbus.Chunk
import Modbus.Limits
import Modbus.Link
import Modbus.Logger
import Modbus.Response
import Modbus.Value.Registers

/-! A client over any link. Each operation sends its requests one after another and ends with its result or
the first error. The client keeps what can be observed of it: requests with their outcomes, log lines and
pauses. -/
namespace Modbus

inductive Client.Event where
  | exchanged (request : Request) (outcome : Except Error Pdu)
  | logged (entry : LogEntry)
  | paused (ms : Nat)

/-- `events` has the newest first. With `realPauses` a pause lets time pass on the clock of the link. -/
structure Client (σ : Type) where
  link : σ
  logger : Logger := {}
  realPauses : Bool := true
  events : List Client.Event := []

namespace Client

/-- An operation of a client: it may fail, and the client goes on either way. -/
abbrev Action (σ α : Type) := ExceptT Error (StateM (Client σ)) α

variable {σ : Type} [Link σ]

/-- An outcome that is known without any request. -/
def settled (outcome : Except Error α) : Action σ α := ExceptT.mk (pure outcome)

def record (entry : LogEntry) : StateM (Client σ) Unit :=
  modify fun c => { c with events := (c.logger.pass entry).map .logged ++ c.events }

def pause (ms : Nat) (c : Client σ) : Client σ :=
  { c with
    link := if c.realPauses then Link.elapse c.link ms else c.link
    events := .paused ms :: c.events }

/-- Gives a request to the link and notes it with the outcome. What a whole run of operations notes is what happens to its
link, in order: `Operation.follows_runAll`. -/
def exchange (r : Request) : StateM (Client σ) (Except Error Pdu) := fun c =>
  let (outcome, link) := Link.send c.link r
  (outcome, { c with link, events := .exchanged r outcome :: c.events })

def execute (r : Request) : Action σ Pdu := ExceptT.mk do
  record (.ofRequest r)
  let outcome ← exchange r
  match outcome with
  | .error e => record (.ofFailure r.slave r.function e)
  | .ok response => record (.ofResponse r.slave response.bytes)
  return outcome

/-- Logs what the client finds wrong with a response. -/
def judge (r : Request) (verdict : Except Error α) : Action σ α := ExceptT.mk do
  match verdict with
  | .error e => record (.ofFailure r.slave r.function e)
  | .ok _ => pure ()
  return verdict

def checkQuantity (quantity maximum : UInt16) : Except Error Unit :=
  if quantity = 0 ∨ maximum < quantity then .error (.quantityRange quantity maximum) else .ok ()

/-- A read whose response is understood by `parse`. -/
def read (maximum : UInt16) (parse : Pdu → UInt8 → UInt16 → Except Error (List α)) (slave function : UInt8)
    (address quantity : UInt16) : Action σ (List α) := do
  settled (checkQuantity quantity maximum)
  let r : Request := { slave, function, address, quantity }
  let response ← execute r
  judge r (parse response function quantity)

def readBits (slave function : UInt8) (address quantity : UInt16) : Action σ (List Bool) :=
  read Protocol.maxReadCoils Response.bits slave function address quantity

def readRegisters (slave function : UInt8) (address quantity : UInt16) : Action σ (List UInt16) :=
  read Protocol.maxReadRegisters Response.registers slave function address quantity

def readCoils (slave : UInt8) (address quantity : UInt16) : Action σ (List Bool) :=
  readBits slave FunctionCode.readCoils.toByte address quantity

def readDiscreteInputs (slave : UInt8) (address quantity : UInt16) : Action σ (List Bool) :=
  readBits slave FunctionCode.readDiscreteInputs.toByte address quantity

def readHoldingRegisters (slave : UInt8) (address quantity : UInt16) : Action σ (List UInt16) :=
  readRegisters slave FunctionCode.readHoldingRegisters.toByte address quantity

def readInputRegisters (slave : UInt8) (address quantity : UInt16) : Action σ (List UInt16) :=
  readRegisters slave FunctionCode.readInputRegisters.toByte address quantity

/-- A write is done once the device has repeated its address and value or quantity. -/
def write (r : Request) : Action σ Unit := do
  let response ← execute r
  judge r (Response.checkEcho response r.function r.address r.echoedWord)

def writeSingleCoil (slave : UInt8) (address : UInt16) (value : Bool) : Action σ Unit :=
  write {
    slave
    function := FunctionCode.writeSingleCoil.toByte
    address
    quantity := 1
    data := Word.bytes (Protocol.coilWord value) }

def writeSingleRegister (slave : UInt8) (address value : UInt16) : Action σ Unit :=
  write {
    slave
    function := FunctionCode.writeSingleRegister.toByte
    address
    quantity := 1
    data := Word.bytes value }

def writeMultipleCoils (slave : UInt8) (address : UInt16) (values : List Bool) : Action σ Unit :=
  if values.length = 0 ∨ Protocol.maxWriteCoils.toNat < values.length then
    throw (.coilCount values.length)
  else
    write {
      slave
      function := FunctionCode.writeMultipleCoils.toByte
      address
      quantity := .ofNat values.length
      data := Bits.pack values }

def writeMultipleRegisters (slave : UInt8) (address : UInt16) (values : List UInt16) : Action σ Unit :=
  if values.length = 0 ∨ Protocol.maxWriteRegisters.toNat < values.length then
    throw (.registerCount values.length)
  else
    write {
      slave
      function := FunctionCode.writeMultipleRegisters.toByte
      address
      quantity := .ofNat values.length
      data := values.flatMap Word.bytes }

/-- A read of any size, in chunks of at most `ceiling`. Somebody has asked to stop as soon as `stopped`
holds of the link. -/
def readChunked (fetch : UInt8 → UInt8 → UInt16 → UInt16 → Action σ (List α)) (slave function : UInt8)
    (address quantity ceiling : UInt16) (delay : Nat) (stopped : σ → Bool) : Action σ (List α) :=
  ExceptT.mk (Chunk.read {
    fetch := fun span => (fetch slave function span.start span.count).run
    pause := pause
    stopped := fun c => stopped c.link } delay address quantity ceiling)

def readCoilsChunked (slave : UInt8) (address quantity : UInt16) (limits : Limits) (stopped : σ → Bool) :
    Action σ (List Bool) :=
  readChunked readBits slave FunctionCode.readCoils.toByte address quantity limits.maxReadCoils limits.delayMs
    stopped

def readDiscreteInputsChunked (slave : UInt8) (address quantity : UInt16) (limits : Limits)
    (stopped : σ → Bool) : Action σ (List Bool) :=
  readChunked readBits slave FunctionCode.readDiscreteInputs.toByte address quantity limits.maxReadCoils
    limits.delayMs stopped

def readHoldingRegistersChunked (slave : UInt8) (address quantity : UInt16) (limits : Limits)
    (stopped : σ → Bool) : Action σ (List UInt16) :=
  readChunked readRegisters slave FunctionCode.readHoldingRegisters.toByte address quantity
    limits.maxReadRegisters limits.delayMs stopped

def readInputRegistersChunked (slave : UInt8) (address quantity : UInt16) (limits : Limits)
    (stopped : σ → Bool) : Action σ (List UInt16) :=
  readChunked readRegisters slave FunctionCode.readInputRegisters.toByte address quantity
    limits.maxReadRegisters limits.delayMs stopped

/-- Reads one typed point: a single bit, or as many registers as the tagged type takes. -/
def readValue (slave function : UInt8) (address : UInt16) (tag : String) (bit : UInt8) (order : ByteOrder) :
    Action σ Value :=
  if !FunctionCode.isRead function then throw (.notReadFunction function)
  else if FunctionCode.isBitRead function then do
    let bits ← readBits slave function address 1
    return .bool (bits.headD false)
  else
    match DataType.ofTag? tag with
    | none => throw (.unsupportedType tag)
    | some t => do
      let registers ← readRegisters slave function address (.ofNat t.width)
      settled (Value.decode registers tag bit order)

/-- Registers at one address: a single write if there is one, a multiple write otherwise. -/
def writeWords (slave : UInt8) (address : UInt16) : List UInt16 → Action σ Unit
  | [value] => writeSingleRegister slave address value
  | values => writeMultipleRegisters slave address values

def writeValue (slave : UInt8) (address : UInt16) (value : Value) (order : ByteOrder) : Action σ Unit :=
  writeWords slave address (value.encode order)

def isConnected (c : Client σ) : Bool := Link.isConnected c.link

def close (c : Client σ) : Client σ := { c with link := Link.close c.link }

def stats (c : Client σ) : Stats := Link.stats c.link

end Client

end Modbus
