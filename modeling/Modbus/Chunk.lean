import Modbus.Error

/-! A read that is too large for one request, done in chunks: strictly one after another, in address
order, with a pause before each chunk but the first. The first failing chunk fails the whole read. -/
namespace Modbus.Chunk

structure Span where
  start : UInt16
  count : UInt16
  deriving DecidableEq, Repr

def lastAddress : Nat := 0xFFFF

/-- Spans of at most `ceiling` addresses, appended to `spans`, until nothing remains. A start past the
last address becomes the last address. -/
def split (ceiling start remaining : Nat) (spans : Array Span) : Array Span :=
  if 0 < ceiling ∧ 0 < remaining then
    let count := min remaining ceiling
    split ceiling (min (start + count) lastAddress) (remaining - count) (spans.push ⟨.ofNat start, .ofNat count⟩)
  else spans
  termination_by remaining

def plan (start quantity ceiling : UInt16) : Except Error (List Span) :=
  if ceiling = 0 then .error .chunkLimitZero
  else .ok (split ceiling.toNat start.toNat quantity.toNat #[]).toList

/-- What a chunked read acts through, on a state of any kind: one request for one span, a pause, and
whether somebody has asked to stop. -/
structure Reader (σ α : Type) where
  fetch : Span → σ → Except Error (List α) × σ
  pause : Nat → σ → σ
  stopped : σ → Bool

def Reader.rest (reader : Reader σ α) (delay : Nat) (state : σ) : σ :=
  if delay = 0 then state else reader.pause delay state

/-- Reads the spans that are left; `chunks` holds what was read before, the newest first. -/
def readSpans (reader : Reader σ α) (delay : Nat) :
    List Span → List (List α) → σ → Except Error (List α) × σ
  | [], chunks, state => (.ok chunks.reverse.flatten, state)
  | span :: spans, chunks, state =>
    let state := if chunks.isEmpty then state else reader.rest delay state
    if reader.stopped state then (.error (.cancelled span.start), state)
    else
      match reader.fetch span state with
      | (.error e, state) => (.error e, state)
      | (.ok values, state) => readSpans reader delay spans (values :: chunks) state

def read (reader : Reader σ α) (delay : Nat) (start quantity ceiling : UInt16) (state : σ) :
    Except Error (List α) × σ :=
  match plan start quantity ceiling with
  | .error e => (.error e, state)
  | .ok spans => readSpans reader delay spans [] state

end Modbus.Chunk
