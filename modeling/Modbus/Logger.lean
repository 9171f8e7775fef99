import Modbus.Request

/-! Lines about the traffic of a client. A logger passes lines at or above its threshold and drops the
rest; without a threshold it drops all. -/
namespace Modbus

inductive LogLevel where
  | debug
  | info
  | warn
  | error
  deriving DecidableEq, Repr

namespace LogLevel

def rank : LogLevel → Nat
  | debug => 0
  | info => 1
  | warn => 2
  | error => 3

def name : LogLevel → String
  | debug => "DEBUG"
  | info => "INFO"
  | warn => "WARN"
  | error => "ERROR"

end LogLevel

structure LogEntry where
  level : LogLevel
  message : String
  deriving DecidableEq, Repr

namespace LogEntry

def ofRequest (r : Request) : LogEntry :=
  let payload := if r.data.isEmpty then "" else " data=[" ++ Hex.dump r.data ++ "]"
  ⟨.debug, s!"TX slave={r.slave} fc={r.function} (" ++ FunctionCode.describe r.function ++
    s!") addr={r.address} qty={r.quantity}" ++ payload⟩

def ofResponse (slave : UInt8) (bytes : List UInt8) : LogEntry :=
  ⟨.debug, s!"RX slave={slave} pdu=[" ++ Hex.dump bytes ++ "]"⟩

/-- What may succeed when tried again is a warning only. -/
def ofFailure (slave function : UInt8) (e : Error) : LogEntry :=
  ⟨if e.isRecoverable then .warn else .error, s!"FAIL slave={slave} fc={function}: " ++ e.text⟩

end LogEntry

structure Logger where
  threshold : Option LogLevel := none
  deriving DecidableEq, Repr

namespace Logger

def isEnabled (l : Logger) (level : LogLevel) : Bool := l.threshold.any fun least => least.rank ≤ level.rank

/-- The lines that come through: one or none. -/
def pass (l : Logger) (entry : LogEntry) : List LogEntry := if l.isEnabled entry.level then [entry] else []

end Logger

end Modbus
