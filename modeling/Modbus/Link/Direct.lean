import Modbus.Device
import Modbus.Link

/-! A device reached without a medium: each request message is handed to it at once. Errors can be put in
line to be returned instead, one for each request. -/
namespace Modbus

structure DirectLink where
  device : Device := {}
  pendingErrors : List Error := []
  stats : Stats := {}
  connected : Bool := true
  now : Nat := 0

namespace DirectLink

/-- Message sizes stand in for frame sizes. -/
def exchange (l : DirectLink) (r : Request) : Except Error Pdu × DirectLink :=
  if !l.connected then (.error .closed, l)
  else
    match l.pendingErrors with
    | e :: pendingErrors => (.error e, { l with pendingErrors })
    | [] =>
      match r.toPdu with
      | .error e => (.error e, l)
      | .ok pdu =>
        let (answer, device) := l.device.process pdu.bytes
        let stats := ((l.stats.sent pdu.bytes.length).answered).received answer.length
        (Pdu.ofBytes answer, { l with device, stats })

def send (l : DirectLink) (r : Request) : Except Error Pdu × DirectLink :=
  let (outcome, l) := l.exchange r
  (outcome, { l with stats := l.stats.outcome outcome })

instance : Link DirectLink where
  send := send
  isConnected := connected
  close l := { l with connected := false }
  stats := DirectLink.stats
  elapse l ms := { l with now := l.now + ms }

end DirectLink

end Modbus
