import Modbus.Batch

/-! Collects writes until it is time to release them: when the window since the last release is over, or
when enough of them are pending. Being full is a sign and no bound, so a command is always taken. -/
namespace Modbus

/-- `window` is in milliseconds, and `lastRelease` is what a clock that counts nanoseconds told. Both are 64-bit words,
and so is the time between. `maxBatch` and `count` are numbers of commands that are there, which no arithmetic wraps. -/
structure Batcher where
  window : Int64
  maxBatch : Nat
  pending : Batch := .empty
  count : Nat := 0
  lastRelease : Int64

namespace Batcher

def defaultWindow : Int64 := 20

def defaultMaxBatch : Nat := 100

def start (window : Int64) (maxBatch : Nat) (now : Int64) : Batcher := { window, maxBatch, lastRelease := now }

def enqueue (b : Batcher) (command : Command) : Batcher :=
  { b with pending := b.pending.add command, count := b.count + 1 }

def elapsed (b : Batcher) (now : Int64) : Int64 := now - b.lastRelease

/-- The window is compared in nanoseconds, as a word that wraps. -/
def shouldRelease (b : Batcher) (now : Int64) : Bool :=
  b.window * 1000000 ≤ b.elapsed now || b.maxBatch ≤ b.count

/-- Hands over all that is pending. The window starts again. -/
def release (b : Batcher) (now : Int64) : Batch × Batcher :=
  (b.pending, { b with pending := .empty, count := 0, lastRelease := now })

/-- Drops all that is pending. The window goes on. -/
def clear (b : Batcher) : Batcher := { b with pending := .empty, count := 0 }

end Batcher

end Modbus
