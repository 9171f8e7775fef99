import Modbus.Link
import Modbus.Link.Reception

/-! Requests over a serial line. Frames carry no id, so the next frame from the slave is taken for the
answer. Nobody answers a write to slave 0, which goes to all slaves. -/
namespace Modbus

/-- `timeout` is in milliseconds, 0 waits for ever. -/
structure RtuLink (π : Type) where
  stream : ByteStream π
  timeout : Nat := Protocol.defaultTimeoutMs
  stats : Stats := {}
  closed : Bool := false

/-- Whether the request goes to all slaves and none of them answers. -/
def Request.isBroadcast (r : Request) : Bool := r.slave == 0 && FunctionCode.isWrite r.function

namespace RtuLink

variable {π : Type}

def isConnected (l : RtuLink π) : Bool := !l.closed && l.stream.isOpen

def close (l : RtuLink π) : RtuLink π := { l with closed := true, stream := l.stream.close }

def accept (slave : UInt8) (frame : List UInt8) : Except Error Pdu := do
  let adu ← Rtu.decode frame
  if adu.slave ≠ slave then throw (.slaveMismatch slave adu.slave)
  return adu.pdu

/-- A broadcast is taken to be done: its outcome is the answer that one slave would give. -/
def exchange [Peer π] (l : RtuLink π) (r : Request) : Except Error Pdu × RtuLink π :=
  if !l.isConnected then (.error (.notConnected .rtu), l)
  else
    match r.toPdu with
    | .error e => (.error e, l)
    | .ok pdu =>
      let frame := Rtu.encode r.slave pdu
      match Framing.rtu.transmit l.stream frame with
      | (.error e, stream) => (.error e, { l with stream })
      | (.ok (), stream) =>
        let stats := l.stats.sent frame.length
        if r.isBroadcast then (.ok (pdu.take 5), { l with stream, stats })
        else
          match Framing.rtu.receive l.timeout stream with
          | (.error e, stream) => (.error e, { l with stream, stats })
          | (.ok response, stream) =>
            let stats := stats.received response.length
            match accept r.slave response with
            | .error e => (.error e, { l with stream, stats })
            | .ok answer => (.ok answer, { l with stream, stats := stats.answered })

def send [Peer π] (l : RtuLink π) (r : Request) : Except Error Pdu × RtuLink π :=
  let (outcome, l) := l.exchange r
  (outcome, { l with stats := l.stats.outcome outcome })

instance [Peer π] : Link (RtuLink π) where
  send := send
  isConnected := isConnected
  close := close
  stats := RtuLink.stats
  elapse l ms := { l with stream := l.stream.advance ms }

end RtuLink

end Modbus
