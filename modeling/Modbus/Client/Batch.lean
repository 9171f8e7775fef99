import Modbus.Batch
import Modbus.Client

/-! A released batch, executed in the order of its groups. Commands that cover one range of registers are
written together, in requests as large as the device takes; the first error ends the batch. -/
namespace Modbus.Client

variable {σ : Type} [Link σ]

/-- Pauses before every write but the first, so a batch never pauses after its last write. `issued` says
whether a write came before. -/
def pace (delay : Nat) (issued : Bool) : Action σ Unit :=
  ExceptT.lift (if issued && delay != 0 then modify (pause delay) else pure ())

def writeCoilGroup (delay : Nat) (slave : UInt8) : List Command → Bool → Action σ Bool
  | [], issued => return issued
  | c :: rest, issued => do
    pace delay issued
    writeSingleCoil slave c.address !c.value.isZero
    writeCoilGroup delay slave rest true

def writeEach (delay : Nat) (slave : UInt8) : List Command → Bool → Action σ Bool
  | [], issued => return issued
  | c :: rest, issued => do
    let words ← settled c.encode
    pace delay issued
    writeWords slave c.address words
    writeEach delay slave rest true

/-- Registers from an address on, at most `ceiling` in one request. -/
def writeRun (delay ceiling : Nat) (slave : UInt8) (address : Nat) (words : List UInt16) (issued : Bool) :
    Action σ Bool :=
  if 0 < ceiling ∧ 0 < words.length then do
    pace delay issued
    writeMultipleRegisters slave (.ofNat address) (words.take ceiling)
    writeRun delay ceiling slave (address + ceiling) (words.drop ceiling) true
  else return issued
  termination_by words.length
  decreasing_by simp only [List.length_drop]; omega

def coalescable (commands : List Command) : Bool :=
  commands.all (fun c => (DataType.ofTag? c.tag).any (· != .bool)) && Batch.areConsecutive commands

def encodeAll (commands : List Command) : Except Error (List UInt16) := do
  let parts ← commands.mapM Command.encode
  return parts.flatten

def writeCoalesced (limits : Limits) (slave : UInt8) (commands : List Command) (issued : Bool) :
    Action σ Bool := do
  let sorted := Batch.byAddress commands
  let words ← settled (encodeAll sorted)
  let start := sorted.head?.elim 0 fun c => c.address.toNat
  if Protocol.addressSpaceSize < start + words.length then
    throw (.coalescedPastEnd words.length start)
  let ceiling := min limits.maxWriteRegisters.toNat Protocol.maxWriteRegisters.toNat
  if ceiling = 0 then throw .writeLimitZero
  writeRun limits.delayMs ceiling slave start words issued

def writeRegisterGroup (limits : Limits) (slave : UInt8) (commands : List Command) (issued : Bool) :
    Action σ Bool :=
  if coalescable commands then writeCoalesced limits slave commands issued
  else writeEach limits.delayMs slave commands issued

def writeGroup (limits : Limits) (key : Batch.Key) (commands : List Command) (issued : Bool) : Action σ Bool :=
  match FunctionCode.ofByte? key.function with
  | some .writeSingleCoil | some .writeMultipleCoils => writeCoilGroup limits.delayMs key.slave commands issued
  | some .writeSingleRegister | some .writeMultipleRegisters =>
    writeRegisterGroup limits key.slave commands issued
  | _ => throw (.notBatchableWrite key.function)

def writeGroups (limits : Limits) : List (Batch.Key × Array Command) → Bool → Action σ Unit
  | [], _ => return
  | (key, commands) :: rest, issued => do
    let issued ← writeGroup limits key commands.toList issued
    writeGroups limits rest issued

def writeBatch (batch : Batch) (limits : Limits) : Action σ Unit := writeGroups limits batch.groups false

end Modbus.Client
