/-! How a message travels over a byte stream: behind an MBAP header on TCP, or between a slave id and a
checksum on a serial line. -/
namespace Modbus

inductive Framing where
  | mbap
  | rtu
  deriving DecidableEq, Repr

namespace Framing

def frameName : Framing → String
  | mbap => "MBAP"
  | rtu => "RTU"

def linkName : Framing → String
  | mbap => "TCP"
  | rtu => "RTU"

end Framing

end Modbus
