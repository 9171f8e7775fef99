import Modbus.Chunk

/-! A chunked read rehearsed without a device: made-up values, and a script of what goes wrong at which
call. -/
namespace Modbus.Chunk

/-- Calls and pauses are counted from 0. With `quiet` pauses the clock stands still and pauses are noted;
otherwise they only let time pass. -/
structure Script where
  failAt : Option (Nat × Error) := none
  stopAt : Option Nat := none
  shortAt : Option Nat := none
  stopInPause : Option Nat := none
  quiet : Bool := true

/-- `calls` and `pauses` have the newest first; the counts are their lengths. -/
structure Rehearsal where
  calls : List Span := []
  callCount : Nat := 0
  pauses : List Nat := []
  pauseCount : Nat := 0
  stopped : Bool := false
  now : Nat := 0

namespace Rehearsal

variable {α : Type}

/-- The addresses of a span, also past the last one. -/
def addresses (span : Span) : List Nat := List.range' span.start.toNat span.count.toNat

def register (address : Nat) : UInt16 := .ofNat address

def bit (address : Nat) : Bool := address % 3 == 0

def fetch (script : Script) (value : Nat → α) (span : Span) (r : Rehearsal) : Except Error (List α) × Rehearsal :=
  let call := r.callCount
  let r := { r with
    calls := span :: r.calls
    callCount := call + 1
    stopped := r.stopped || script.stopAt == some call }
  match script.failAt.filter fun failure => failure.1 == call with
  | some (_, e) => (.error e, r)
  | none =>
    let values := (addresses span).map value
    (.ok (if script.shortAt == some call then values.dropLast else values), r)

def pause (script : Script) (ms : Nat) (r : Rehearsal) : Rehearsal :=
  if script.quiet then
    { r with
      pauses := ms :: r.pauses
      pauseCount := r.pauseCount + 1
      stopped := r.stopped || script.stopInPause == some r.pauseCount }
  else { r with now := r.now + ms }

def reader (script : Script) (value : Nat → α) : Reader Rehearsal α where
  fetch := fetch script value
  pause := pause script
  stopped := stopped

end Rehearsal

end Modbus.Chunk
