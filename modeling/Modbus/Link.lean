import Modbus.Request

/-! What carries requests to a device and brings responses back, whatever lies between. -/
namespace Modbus

/-- Traffic counters. Bytes are whole frames, as written to the medium and read from it. The 64 bits that a counter has
are not modelled: it counts on without end. -/
structure Stats where
  requestsSent : Nat := 0
  responsesReceived : Nat := 0
  errors : Nat := 0
  timeouts : Nat := 0
  bytesSent : Nat := 0
  bytesReceived : Nat := 0
  deriving DecidableEq, Repr

namespace Stats

def sent (s : Stats) (size : Nat) : Stats :=
  { s with requestsSent := s.requestsSent + 1, bytesSent := s.bytesSent + size }

def received (s : Stats) (size : Nat) : Stats := { s with bytesReceived := s.bytesReceived + size }

def answered (s : Stats) : Stats := { s with responsesReceived := s.responsesReceived + 1 }

/-- A timeout counts as an error too. -/
def failed (s : Stats) (e : Error) : Stats :=
  { s with errors := s.errors + 1, timeouts := s.timeouts + if e.kind = .timeout then 1 else 0 }

def outcome (s : Stats) : Except Error α → Stats
  | .error e => s.failed e
  | .ok _ => s

end Stats

/-- One request, one response. An exception response is a response like any other here. `elapse` lets
milliseconds pass on the clock of the link. -/
class Link (σ : Type) where
  send : σ → Request → Except Error Pdu × σ
  isConnected : σ → Bool
  close : σ → σ
  stats : σ → Stats
  elapse : σ → Nat → σ

end Modbus
