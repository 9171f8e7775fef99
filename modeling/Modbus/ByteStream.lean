import Modbus.ByteStream.Queue

/-! A byte stream in memory, with a peer that may answer each write, faults that can be switched on, and
a clock on which arrivals and hang-ups are scheduled. Nothing scheduled happens before the clock moves. -/
namespace Modbus

/-- The other end of a stream: what it sends at once in answer to a write. -/
class Peer (π : Type) where
  answer : π → List UInt8 → List UInt8 × π

/-- A peer without memory. -/
inductive Loopback where
  | silent
  | echo
  | reverse
  deriving DecidableEq, Repr

instance : Peer Loopback where
  answer peer written :=
    (match peer with
      | .silent => []
      | .echo => written
      | .reverse => written.reverse, peer)

namespace ByteStream

/-- `maxRead` bounds what one read delivers, 0 being no bound. -/
structure Faults where
  writeFailure : Bool := false
  flushFailure : Bool := false
  readFailure : Bool := false
  zeroReads : Bool := false
  shortWrites : Bool := false
  eofWhenClosed : Bool := false
  ignoreClose : Bool := false
  maxRead : Nat := 0
  deriving DecidableEq, Repr

inductive Occurrence where
  | deliver (bytes : List UInt8)
  | hangUp
  deriving DecidableEq, Repr

structure Scheduled where
  due : Nat
  occurrence : Occurrence
  deriving DecidableEq, Repr

/-- One read: how many bytes were asked for, and what came. -/
structure Reading where
  asked : Nat
  delivered : List UInt8
  deriving DecidableEq, Repr

inductive ReadResult where
  | failed
  | bytes (bytes : List UInt8)
  deriving DecidableEq, Repr

end ByteStream

/-- `writes` and `readings` are histories, the newest entry first. `writeCount` counts writes also after
their history was cleared. `schedule` is in order of time, and of insertion at one time. -/
structure ByteStream (π : Type) where
  peer : π
  queue : ByteStream.Queue := .empty
  writes : List (List UInt8) := []
  writeCount : Nat := 0
  readings : List ByteStream.Reading := []
  isOpen : Bool := true
  faults : ByteStream.Faults := {}
  now : Nat := 0
  schedule : List ByteStream.Scheduled := []

namespace ByteStream

variable {π : Type}

/-- Everything written, in order. -/
def written (s : ByteStream π) : List UInt8 := s.writes.reverse.flatten

/-- Everything read, in order. -/
def consumed (s : ByteStream π) : List UInt8 := (s.readings.reverse.map Reading.delivered).flatten

def hasData (s : ByteStream π) : Bool := s.isOpen && s.queue.available != 0

def available (s : ByteStream π) : Nat := if s.isOpen then s.queue.available else 0

/-- What one read may deliver when `n` bytes are asked for. -/
def Faults.readLimit (f : Faults) (n : Nat) : Nat := if f.maxRead = 0 then n else min n f.maxRead

/-- The count of a read is the number of its bytes. Counts are numbers without a width; below 2 ^ 31 bytes this is also
what an `int` holds. -/
def read (s : ByteStream π) (n : Nat) : ReadResult × ByteStream π :=
  if s.faults.readFailure then (.failed, { s with readings := ⟨n, []⟩ :: s.readings })
  else if s.faults.zeroReads ∨ (s.faults.eofWhenClosed ∧ !s.isOpen) then
    (.bytes [], { s with readings := ⟨n, []⟩ :: s.readings })
  else if !s.isOpen then (.failed, { s with readings := ⟨n, []⟩ :: s.readings })
  else
    let (bytes, queue) := s.queue.read (s.faults.readLimit n)
    (.bytes bytes, { s with queue, readings := ⟨n, bytes⟩ :: s.readings })

/-- How many bytes the stream took, as a number without a width like that of `read`; `none` for a failed write, which the
peer does not see. -/
def write [Peer π] (s : ByteStream π) (bytes : List UInt8) : Option Nat × ByteStream π :=
  if !s.isOpen ∨ s.faults.writeFailure then (none, s)
  else
    let (reply, peer) := Peer.answer s.peer bytes
    (some (if s.faults.shortWrites then bytes.length - 1 else bytes.length),
      { s with
        peer
        queue := s.queue.append reply
        writes := bytes :: s.writes
        writeCount := s.writeCount + 1 })

def flushes (s : ByteStream π) : Bool := s.isOpen && !s.faults.flushFailure

def close (s : ByteStream π) : ByteStream π := if s.faults.ignoreClose then s else { s with isOpen := false }

/-- Replaces what has not been read. -/
def setPending (s : ByteStream π) (bytes : List UInt8) : ByteStream π := { s with queue := .ofBytes bytes }

def deliver (s : ByteStream π) (bytes : List UInt8) : ByteStream π := { s with queue := s.queue.append bytes }

def clearWrites (s : ByteStream π) : ByteStream π := { s with writes := [] }

def happen (s : ByteStream π) : Occurrence → ByteStream π
  | .deliver bytes => s.deliver bytes
  | .hangUp => s.close

/-- After everything that is due no later. -/
def insert (entry : Scheduled) : List Scheduled → List Scheduled
  | [] => [entry]
  | first :: rest => if entry.due < first.due then entry :: first :: rest else first :: insert entry rest

/-- Lets something happen `delay` milliseconds from now. -/
def scheduleAfter (s : ByteStream π) (delay : Nat) (occurrence : Occurrence) : ByteStream π :=
  { s with schedule := insert ⟨s.now + delay, occurrence⟩ s.schedule }

/-- Moves the clock; what is due by the new time happens, in order. -/
def advance (s : ByteStream π) (ms : Nat) : ByteStream π :=
  let time := s.now + ms
  let due := s.schedule.takeWhile (·.due ≤ time)
  let later := s.schedule.dropWhile (·.due ≤ time)
  let s := due.foldl (fun s entry => s.happen entry.occurrence) s
  { s with now := time, schedule := later }

/-- When the last scheduled thing happens. -/
def lastDue? (s : ByteStream π) : Option Nat := s.schedule.getLast?.map Scheduled.due

/-- A read that delivers anything leaves less to read. -/
theorem available_lt_of_read {s : ByteStream π} {n : Nat} {b : UInt8} {bs : List UInt8}
    (got : (s.read n).1 = .bytes (b :: bs)) : (s.read n).2.queue.available < s.queue.available := by
  unfold read at got ⊢
  split at got
  · nomatch got
  split at got
  · nomatch got
  split at got
  · nomatch got
  rename_i noFailure noZero isOpen
  rw [if_neg noFailure, if_neg noZero, if_neg isOpen]
  have delivered : s.queue.pending.take (s.faults.readLimit n) = b :: bs := by simpa [Queue.read] using got
  have size := congrArg List.length delivered
  simp only [List.length_take, Queue.length_pending, List.length_cons] at size
  simp only [Queue.read, Queue.available] at size ⊢
  omega

end ByteStream

end Modbus
