import Modbus.Link
import Modbus.Link.Reception

/-! Requests over TCP. Each request carries a transaction id of its own, and only a response with that id
and the unit id of the request is its answer. -/
namespace Modbus

/-- `timeout` is in milliseconds, 0 waits for ever. -/
structure TcpLink (π : Type) where
  stream : ByteStream π
  timeout : Nat := Protocol.defaultTimeoutMs
  nextTransaction : UInt16 := 1
  stats : Stats := {}
  closed : Bool := false

namespace TcpLink

variable {π : Type}

def isConnected (l : TcpLink π) : Bool := !l.closed && l.stream.isOpen

def close (l : TcpLink π) : TcpLink π := { l with closed := true, stream := l.stream.close }

def accept (transaction : UInt16) (unitId : UInt8) (frame : List UInt8) : Except Error Pdu := do
  let adu ← Mbap.decode frame
  if adu.header.transactionId ≠ transaction then
    throw (.transactionMismatch transaction adu.header.transactionId)
  if adu.header.unitId ≠ unitId then throw (.unitMismatch unitId adu.header.unitId)
  return adu.pdu

def exchange [Peer π] (l : TcpLink π) (r : Request) : Except Error Pdu × TcpLink π :=
  if !l.isConnected then (.error (.notConnected .mbap), l)
  else
    match r.toPdu with
    | .error e => (.error e, l)
    | .ok pdu =>
      let frame := Mbap.encode l.nextTransaction r.slave pdu
      let used := { l with nextTransaction := l.nextTransaction + 1 }
      match Framing.mbap.transmit l.stream frame with
      | (.error e, stream) => (.error e, { used with stream })
      | (.ok (), stream) =>
        let stats := l.stats.sent frame.length
        match Framing.mbap.receive l.timeout stream with
        | (.error e, stream) => (.error e, { used with stream, stats })
        | (.ok response, stream) =>
          let stats := stats.received response.length
          match accept l.nextTransaction r.slave response with
          | .error e => (.error e, { used with stream, stats })
          | .ok answer => (.ok answer, { used with stream, stats := stats.answered })

def send [Peer π] (l : TcpLink π) (r : Request) : Except Error Pdu × TcpLink π :=
  let (outcome, l) := l.exchange r
  (outcome, { l with stats := l.stats.outcome outcome })

instance [Peer π] : Link (TcpLink π) where
  send := send
  isConnected := isConnected
  close := close
  stats := TcpLink.stats
  elapse l ms := { l with stream := l.stream.advance ms }

end TcpLink

end Modbus
