import Modbus.Value.Registers

/-! Pending writes, grouped by slave and function code. Groups are in the order of their keys, the commands
of a group in the order in which they came. -/
namespace Modbus

/-- One write. `tag` names the type that decides how many registers the value takes. -/
structure Command where
  point : UInt32 := 0
  value : Value := default
  slave : UInt8
  function : UInt8
  address : UInt16
  tag : String := "uint16"
  order : ByteOrder := .bigEndian
  deriving DecidableEq, Repr

namespace Batch

structure Key where
  slave : UInt8
  function : UInt8
  deriving DecidableEq, Repr

def Key.before (a b : Key) : Bool := a.slave < b.slave || (a.slave == b.slave && a.function < b.function)

end Batch

def Command.key (c : Command) : Batch.Key := ⟨c.slave, c.function⟩

/-- The registers that the command spans; a bool spans none. -/
def Command.span (c : Command) : Nat := DataType.registersOfTag c.tag

def Command.encode (c : Command) : Except Error (List UInt16) := c.value.encodeAs c.tag c.order

structure Batch where
  groups : List (Batch.Key × Array Command) := []

namespace Batch

def empty : Batch := {}

instance : Inhabited Batch := ⟨empty⟩

/-- Puts a command at the end of its group, which is made if there is none. -/
def insert (key : Key) (command : Command) : List (Key × Array Command) → List (Key × Array Command)
  | [] => [(key, #[command])]
  | (first, commands) :: rest =>
    if key = first then (first, commands.push command) :: rest
    else if key.before first then (key, #[command]) :: (first, commands) :: rest
    else (first, commands) :: insert key command rest

/-- Adds a command under a key that need not be its own. -/
def addUnder (b : Batch) (key : Key) (command : Command) : Batch := ⟨insert key command b.groups⟩

def add (b : Batch) (command : Command) : Batch := b.addUnder command.key command

def commands (b : Batch) (key : Key) : List Command :=
  match b.groups.find? fun group => group.1 = key with
  | some group => group.2.toList
  | none => []

/-- Commands in address order; those at one address keep their order. -/
def byAddress (commands : List Command) : List Command := commands.mergeSort fun a b => a.address ≤ b.address

/-- Whether each command begins where the one before it ends, the first one at `expected`. -/
def contiguousFrom : Nat → List Command → Bool
  | _, [] => true
  | expected, c :: rest => c.address.toNat == expected && contiguousFrom (expected + c.span) rest

theorem contiguousFrom_cons {start : Nat} {c : Command} {rest : List Command} :
    contiguousFrom start (c :: rest) = true ↔
      c.address.toNat = start ∧ contiguousFrom (start + c.span) rest = true := by
  rw [contiguousFrom, Bool.and_eq_true, beq_iff_eq]

/-- Whether two or more commands cover one range of registers without gap or overlap, in whatever order
they are given. -/
def areConsecutive (commands : List Command) : Bool :=
  2 ≤ commands.length &&
    match byAddress commands with
    | [] => false
    | first :: rest => contiguousFrom first.address.toNat (first :: rest)

end Batch

end Modbus
