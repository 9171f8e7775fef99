import Modbus.Proofs.Session

/-! The requests of a session as the medium saw them. Between two requests the world may do to the link whatever is not
ruled out, so that what holds of a session does not depend on how its stream is operated. -/
namespace Modbus

variable {π σ : Type}

/-- A request, and the link as it is when the request is made of it. -/
structure Call (σ : Type) where
  link : σ
  request : Request

/-- Requests of a link one after another; in between the link may become any other one that `world` allows. -/
inductive Session [Link σ] (world : σ → σ → Prop) : σ → List (Call σ) → σ → Prop where
  | nil (l : σ) : Session world l [] l
  | outside {l l' l'' : σ} {calls : List (Call σ)} (change : world l l') (rest : Session world l' calls l'') :
      Session world l calls l''
  | request {l l'' : σ} {calls : List (Call σ)} (r : Request) (rest : Session world (Link.send l r).2 calls l'') :
      Session world l (⟨l, r⟩ :: calls) l''

/-- Whether bytes are written whole and flushed. -/
def ByteStream.takes [Peer π] (s : ByteStream π) (bytes : List UInt8) : Bool :=
  (s.write bytes).1 == some bytes.length && (s.write bytes).2.flushes

namespace Call

def outcome [Link σ] (c : Call σ) : Except Error Pdu := (Link.send c.link c.request).1

/-- Whether the request failed since no complete answer came in time. -/
def timedOut [Link σ] (c : Call σ) : Bool :=
  match c.outcome with
  | .ok _ => false
  | .error e => e.kind == .timeout

def after [Link σ] (c : Call σ) : σ := (Link.send c.link c.request).2

variable [Peer π] [Link σ] [Framed σ π]

/-- The frame of the request, if it was written whole and flushed. -/
def frame? (c : Call σ) : Option (List UInt8) :=
  if Link.isConnected c.link then
    match c.request.toPdu with
    | .error _ => none
    | .ok m =>
      let frame := Framed.enclose c.link c.request m
      if (Framed.stream c.link).takes frame then some frame else none
  else none

/-- The bytes read from the stream while the request was under way. -/
def read (c : Call σ) : List UInt8 := (Framed.stream c.after).consumed.drop (Framed.stream c.link).consumed.length

/-- What was read, if it is a complete frame. -/
def response? (c : Call σ) : Option (List UInt8) :=
  if (Framed.framing σ).need c.read = .complete then some c.read else none

/-- Whether nobody answers the request, since it goes to all slaves of a serial line. -/
def isBroadcast (c : Call σ) : Bool := Framed.framing σ == .rtu && c.request.isBroadcast

theorem read_of_consumed {c : Call σ} {part : List UInt8}
    (consumed : (Framed.stream c.after).consumed = (Framed.stream c.link).consumed ++ part) : c.read = part := by
  rw [read, consumed, List.drop_left]

end Call

namespace Framing

variable [Peer π] {framing : Framing} {s s' : ByteStream π} {frame : List UInt8}

/-- A frame goes out whole and is flushed, or the transmission fails. -/
theorem transmit_eq_ok_iff : framing.transmit s frame = (.ok (), s') ↔ s.takes frame = true ∧ s' = (s.write frame).2 := by
  unfold transmit ByteStream.takes
  generalize s.write frame = written
  obtain ⟨count, there⟩ := written
  cases count with
  | none => simp
  | some count =>
    dsimp only
    by_cases whole : count = frame.length
    · by_cases flushed : there.flushes = true
      · simp [whole, flushed, eq_comm]
      · simp [whole, flushed]
    · simp [whole]

end Framing

end Modbus
