import Modbus.ByteStream
import Modbus.Frame.Mbap
import Modbus.Frame.Rtu

/-! How one frame is received from a stream. At each poll everything that has arrived and belongs to the
frame is read; while the frame is incomplete the receiver sleeps until the next poll. No poll takes place
once the time limit is over, and no read goes past the end of the frame. -/
namespace Modbus

variable {π : Type}

/-- What a receiver does with the bytes it holds. -/
inductive Need where
  | more (count : Nat)
  | complete
  | reject (reason : Error)
  deriving DecidableEq, Repr

inductive Attempt where
  | idle
  | got (first : UInt8) (rest : List UInt8)
  | failed (reason : Error)
  deriving DecidableEq, Repr

/-- What a receiver holds once nothing more can be read for now. -/
inductive Gathered where
  | waiting (buffer : List UInt8)
  | frame (frame : List UInt8)
  | failed (reason : Error)
  deriving DecidableEq, Repr

namespace Framing

/-- Milliseconds between polls. -/
def pollInterval : Framing → Nat
  | mbap => 10
  | rtu => 1

/-- On TCP the header comes first and then what it announces. On a serial line the function code, and for
reads the byte count, tell the size of the frame. -/
def need (framing : Framing) (buffer : List UInt8) : Need :=
  match framing with
  | mbap =>
    match Mbap.header? buffer with
    | none => .more (Mbap.headerSize - buffer.length)
    | some h =>
      if !h.lengthValid then .reject .mbapResponseLength
      else if h.frameSize ≤ buffer.length then .complete
      else .more (h.frameSize - buffer.length)
  | rtu =>
    match Rtu.expectedSize? buffer, buffer with
    | some size, _ =>
      if size ≤ buffer.length then .complete
      else if Rtu.maxFrameSize < size then .reject .rtuByteCount
      else .more (size - buffer.length)
    | none, _ :: function :: _ :: _ => .reject (.rtuResponseFunction function)
    | none, _ => .more (3 - buffer.length)

/-- On TCP a stream that has data must deliver some. On a serial line a read that delivers nothing means
that nothing has come yet. -/
def attempt (framing : Framing) (s : ByteStream π) (count : Nat) : Attempt × ByteStream π :=
  match framing with
  | mbap =>
    if s.hasData then
      match s.read count with
      | (.bytes (b :: bs), s) => (.got b bs, s)
      | (_, s) => (.failed (.readFailed mbap), s)
    else if s.isOpen then (.idle, s)
    else (.failed .connectionLost, s)
  | rtu =>
    match s.read count with
    | (.bytes (b :: bs), s) => (.got b bs, s)
    | (.bytes [], s) => if s.isOpen then (.idle, s) else (.failed .connectionLost, s)
    | (.failed, s) => (.failed (.readFailed rtu), s)

theorem available_lt_of_attempt {framing : Framing} {s t : ByteStream π} {count : Nat} {b : UInt8}
    {bs : List UInt8} (got : framing.attempt s count = (.got b bs, t)) :
    t.queue.available < s.queue.available := by
  cases framing with
  | mbap =>
    unfold attempt at got
    dsimp only at got
    split at got
    · split at got
      case h_1 read =>
        cases got
        have less := ByteStream.available_lt_of_read (congrArg Prod.fst read)
        rwa [congrArg Prod.snd read] at less
      case h_2 => nomatch got
    · split at got <;> nomatch got
  | rtu =>
    unfold attempt at got
    dsimp only at got
    split at got
    case h_1 read =>
      cases got
      have less := ByteStream.available_lt_of_read (congrArg Prod.fst read)
      rwa [congrArg Prod.snd read] at less
    case h_2 => split at got <;> nomatch got
    case h_3 => nomatch got

/-- Reads all there is for this frame at one moment. -/
def gather (framing : Framing) (s : ByteStream π) (buffer : List UInt8) : Gathered × ByteStream π :=
  match framing.need buffer with
  | .complete => (.frame buffer, s)
  | .reject reason => (.failed reason, s)
  | .more count =>
    match _read : framing.attempt s count with
    | (.idle, s) => (.waiting buffer, s)
    | (.failed reason, s) => (.failed reason, s)
    | (.got b bs, s) => gather framing s (buffer ++ b :: bs)
  termination_by s.queue.available
  decreasing_by exact available_lt_of_attempt ‹_›

/-- How many polls a time limit allows. Without a limit the receiver polls until all that is scheduled has
happened, after which nothing can change any more. -/
def polls (framing : Framing) (timeout : Nat) (s : ByteStream π) : Nat :=
  let sleeps (ms : Nat) := (ms + framing.pollInterval - 1) / framing.pollInterval
  if timeout = 0 then
    match s.lastDue? with
    | none => 1
    | some due => max 1 (sleeps (due - s.now)) + 1
  else sleeps timeout

def await (framing : Framing) (timeout : Nat) (s : ByteStream π) (buffer : List UInt8) :
    Nat → Except Error (List UInt8) × ByteStream π
  | 0 => (.error (if timeout = 0 then .stalled else .timedOut timeout), s)
  | polls + 1 =>
    match framing.gather s buffer with
    | (.frame frame, s) => (.ok frame, s)
    | (.failed reason, s) => (.error reason, s)
    | (.waiting buffer, s) => framing.await timeout (s.advance framing.pollInterval) buffer polls

/-- The next frame on the stream, or why there is none within the time limit; 0 is no limit. -/
def receive (framing : Framing) (timeout : Nat) (s : ByteStream π) : Except Error (List UInt8) × ByteStream π :=
  framing.await timeout s [] (framing.polls timeout s)

def transmit [Peer π] (framing : Framing) (s : ByteStream π) (frame : List UInt8) :
    Except Error Unit × ByteStream π :=
  match s.write frame with
  | (none, s) => (.error (.writeFailed framing), s)
  | (some count, s) =>
    if count ≠ frame.length then (.error (.writeFailed framing), s)
    else if !s.flushes then (.error (.flushFailed framing), s)
    else (.ok (), s)

end Framing

end Modbus
