import Modbus.ByteStream
import Modbus.Device
import Modbus.Frame.Mbap
import Modbus.Frame.Rtu

/-! The far end of a stream: takes each written frame apart, lets a device answer the message and frames
the answer with the ids of the request. Replies can be scripted, one for each request. -/
namespace Modbus

inductive Reply where
  | silence
  /-- Bytes sent as they are, without a frame. -/
  | raw (bytes : List UInt8)
  | message (pdu : Pdu)

/-- A request frame taken apart: its message, and how a response to it is framed. A request to all slaves
of a serial line gets no response. -/
def Framing.open? (framing : Framing) (frame : List UInt8) : Option (Pdu × (Pdu → List UInt8)) :=
  match framing with
  | .mbap =>
    match Mbap.decode frame with
    | .ok adu => some (adu.pdu, Mbap.encode adu.header.transactionId adu.header.unitId)
    | .error _ => none
  | .rtu =>
    match Rtu.decode frame with
    | .ok adu => some (adu.pdu, if adu.slave = 0 then fun _ => [] else Rtu.encode adu.slave)
    | .error _ => none

/-- `count` counts written frames, whether they can be taken apart or not. -/
structure Server where
  framing : Framing
  device : Device := {}
  script : List Reply := []
  count : Nat := 0

namespace Server

def consult (s : Server) (request : Pdu) (frame : Pdu → List UInt8) : List UInt8 × Server :=
  let (answer, device) := s.device.process request.bytes
  match Pdu.ofBytes answer with
  | .ok pdu => (frame pdu, { s with device })
  | .error _ => ([], { s with device })

def respond (s : Server) (request : Pdu) (frame : Pdu → List UInt8) : List UInt8 × Server :=
  match s.script with
  | [] => s.consult request frame
  | .silence :: script => ([], { s with script })
  | .raw bytes :: script => (bytes, { s with script })
  | .message pdu :: script => (frame pdu, { s with script })

instance : Peer Server where
  answer s written :=
    let s := { s with count := s.count + 1 }
    match s.framing.open? written with
    | none => ([], s)
    | some (request, frame) => s.respond request frame

end Server

end Modbus
