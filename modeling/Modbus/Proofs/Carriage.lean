import Modbus.Link.Rtu
import Modbus.Link.Tcp
import Modbus.Server
import Modbus.Proofs.Direct
import Modbus.Proofs.Reception

/-! Links that carry each request to a device and its answer back, unchanged and in no time. A link without a
medium does, and so do the framed links over a calm stream, at the other end of which the device is served. -/
namespace Modbus

/-- The device at the far end of a link, and the time. -/
structure Scene where
  device : Device
  now : Nat

/-- A kind of link that carries: as long as it is `sound`, the requests that are `allowed` have the outcome that the
device gives them. -/
structure Carrier (σ : Type) [Link σ] where
  scene : σ → Scene
  sound : σ → Prop
  allowed : Request → Prop
  send : ∀ {l : σ} {r : Request}, sound l → allowed r →
    (Link.send l r).1 = ((scene l).device.exchange r).1 ∧
      scene (Link.send l r).2 = { scene l with device := ((scene l).device.exchange r).2 } ∧ sound (Link.send l r).2
  elapse : ∀ {l : σ} (ms : Nat), sound l →
    scene (Link.elapse l ms) = { scene l with now := (scene l).now + ms } ∧ sound (Link.elapse l ms)

/-- A request either never becomes a message, or the device answers it with one. -/
theorem Device.exchange_cases (d : Device) (r : Request) :
    (∃ e, r.toPdu = .error e ∧ d.exchange r = (.error e, d)) ∨
      ∃ pdu f answer, r.toPdu = .ok pdu ∧ 0 < pdu.bytes.length ∧ answer.bytes = (d.process pdu.bytes).1 ∧
        Device.Answer f answer.bytes ∧ d.exchange r = (.ok answer, (d.process pdu.bytes).2) := by
  cases message : r.toPdu with
  | error e => exact .inl ⟨e, rfl, by rw [exchange, message]⟩
  | ok pdu =>
    obtain ⟨acceptable, wire⟩ := Request.toPdu_eq_ok_iff.mp message
    obtain ⟨f, answer⟩ := d.answer_process acceptable
    refine .inr ⟨pdu, f, ⟨_, answer.length_le⟩, rfl, ?_, ?_, answer, ?_⟩
    · rw [wire]
      exact Nat.succ_pos _
    · rw [wire]
    · rw [wire]
      exact exchange_eq_ok acceptable rfl

namespace DirectLink

def scene (l : DirectLink) : Scene := ⟨l.device, l.now⟩

def carrier : Carrier DirectLink where
  scene := scene
  sound := Ready
  allowed _ := True
  send {l r} ready _ := by
    obtain ⟨stats, done⟩ := send_ready ready r
    have sent : Link.send l r = _ := done
    rw [sent]
    exact ⟨rfl, rfl, ready.connected, ready.idle⟩
  elapse ms ready := ⟨rfl, ready.connected, ready.idle⟩

end DirectLink

namespace Server

variable {s : Server}

theorem answer_eq (scriptless : s.script = []) {frame : List UInt8} {pdu answer : Pdu} {enclose : Pdu → List UInt8}
    (opens : s.framing.open? frame = some (pdu, enclose)) (answered : answer.bytes = (s.device.process pdu.bytes).1) :
    Peer.answer s frame =
      (enclose answer, { s with count := s.count + 1, device := (s.device.process pdu.bytes).2 }) := by
  have message : Pdu.ofBytes (s.device.process pdu.bytes).1 = .ok answer := Pdu.ofBytes_eq_ok_iff.mpr answered
  simp [Peer.answer, opens, respond, scriptless, consult, message]

end Server

/-- A calm stream that holds nothing, to a server of a framing that answers as its device does. -/
structure ByteStream.Serves (framing : Framing) (s : ByteStream Server) : Prop where
  calm : s.Calm
  empty : s.queue.pending = []
  framing : s.peer.framing = framing
  scriptless : s.peer.script = []

namespace ByteStream

variable {s : ByteStream Server} {framing : Framing}

def scene (s : ByteStream Server) : Scene := ⟨s.peer.device, s.now⟩

/-- There and back: the frame of the answer is received, and no byte is left. -/
theorem roundTrip (serves : s.Serves framing) (timeout : Nat) {frame : List UInt8} {pdu answer : Pdu}
    {enclose : Pdu → List UInt8} (opens : framing.open? frame = some (pdu, enclose))
    (answered : answer.bytes = (s.peer.device.process pdu.bytes).1) (delimits : framing.Delimits (enclose answer)) :
    ∃ there back, framing.transmit s frame = (.ok (), there) ∧
      framing.receive timeout there = (.ok (enclose answer), back) ∧ back.Serves framing ∧
      back.scene = { s.scene with device := (s.peer.device.process pdu.bytes).2 } := by
  have reply := Server.answer_eq serves.scriptless (serves.framing ▸ opens) answered
  have calm (peer : Server) (queue : Queue) (writes : List (List UInt8)) (writeCount : Nat) :
      Calm { s with peer, queue, writes, writeCount } :=
    ⟨serves.calm.isOpen, serves.calm.faults, serves.calm.schedule⟩
  have arrived : (s.queue.append (Peer.answer s.peer frame).1).pending = enclose answer ++ [] := by
    rw [Queue.pending_append, serves.empty, reply, List.append_nil, List.nil_append]
  obtain ⟨queue, readings, received, rest⟩ := Framing.receive_frame delimits (calm _ _ _ _) timeout arrived
  refine ⟨_, _, Framing.transmit_calm serves.calm frame, received, ⟨?_, rest, ?_, ?_⟩, ?_⟩
  · exact ⟨serves.calm.isOpen, serves.calm.faults, serves.calm.schedule⟩
  · exact (congrArg (fun reply => reply.2.framing) reply).trans serves.framing
  · exact (congrArg (fun reply => reply.2.script) reply).trans serves.scriptless
  · exact congrArg (fun reply => Scene.mk reply.2.device s.now) reply

theorem serves_advance (serves : s.Serves framing) (ms : Nat) :
    (s.advance ms).Serves framing ∧ (s.advance ms).scene = { s.scene with now := s.scene.now + ms } := by
  rw [advance_calm serves.calm]
  exact ⟨⟨⟨serves.calm.isOpen, serves.calm.faults, serves.calm.schedule⟩, serves.empty, serves.framing,
    serves.scriptless⟩, rfl⟩

end ByteStream

namespace TcpLink

structure Sound (l : TcpLink Server) : Prop where
  isOpen : l.closed = false
  serves : l.stream.Serves .mbap

def scene (l : TcpLink Server) : Scene := l.stream.scene

def carrier : Carrier (TcpLink Server) where
  scene := scene
  sound := Sound
  allowed _ := True
  send {l r} sound _ := by
    have connected : l.isConnected = true := by
      simp [isConnected, sound.isOpen, sound.serves.calm.isOpen]
    change (l.send r).1 = _ ∧ scene (l.send r).2 = _ ∧ Sound (l.send r).2
    unfold send exchange
    rw [connected]
    obtain ⟨e, refused, same⟩ | ⟨pdu, f, answer, message, pos, answered, form, same⟩ := l.scene.device.exchange_cases r
    · rw [refused, same]
      exact ⟨rfl, rfl, sound.isOpen, sound.serves⟩
    · have opens : Framing.mbap.open? (Mbap.encode l.nextTransaction r.slave pdu) =
          some (pdu, Mbap.encode l.nextTransaction r.slave) := by
        simp only [Framing.open?, Mbap.decode_encode pos]
      have some : 0 < answer.bytes.length := Nat.lt_of_lt_of_le Nat.two_pos form.two_le
      obtain ⟨there, back, sent, received, serves, view⟩ :=
        ByteStream.roundTrip sound.serves l.timeout opens answered (Mbap.delimits_encode some)
      have accepted : accept l.nextTransaction r.slave (Mbap.encode l.nextTransaction r.slave answer) = .ok answer := by
        simp [accept, Mbap.decode_encode some, bind, Except.bind, pure, Except.pure]
      rw [message, same]
      simp only [Bool.not_true, Bool.false_eq_true, if_false, sent, received, accepted]
      exact ⟨trivial, view, sound.isOpen, serves⟩
  elapse {l} ms sound := by
    obtain ⟨serves, scene⟩ := ByteStream.serves_advance sound.serves ms
    exact ⟨scene, sound.isOpen, serves⟩

end TcpLink

namespace RtuLink

structure Sound (l : RtuLink Server) : Prop where
  isOpen : l.closed = false
  serves : l.stream.Serves .rtu

def scene (l : RtuLink Server) : Scene := l.stream.scene

/-- Requests to all slaves are left out: they have no answer. -/
def carrier : Carrier (RtuLink Server) where
  scene := scene
  sound := Sound
  allowed r := r.slave ≠ 0
  send {l r} sound addressed := by
    have connected : l.isConnected = true := by
      simp [isConnected, sound.isOpen, sound.serves.calm.isOpen]
    have answerable : r.isBroadcast = false := by simp [Request.isBroadcast, addressed]
    change (l.send r).1 = _ ∧ scene (l.send r).2 = _ ∧ Sound (l.send r).2
    unfold send exchange
    rw [connected, answerable]
    obtain ⟨e, refused, same⟩ | ⟨pdu, f, answer, message, pos, answered, form, same⟩ := l.scene.device.exchange_cases r
    · rw [refused, same]
      exact ⟨rfl, rfl, sound.isOpen, sound.serves⟩
    · have opens : Framing.rtu.open? (Rtu.encode r.slave pdu) = some (pdu, Rtu.encode r.slave) := by
        simp only [Framing.open?, Rtu.decode_encode pos, if_neg addressed]
      have some : 0 < answer.bytes.length := Nat.lt_of_lt_of_le Nat.two_pos form.two_le
      obtain ⟨there, back, sent, received, serves, view⟩ :=
        ByteStream.roundTrip sound.serves l.timeout opens answered (Rtu.delimits_encode form)
      have accepted : accept r.slave (Rtu.encode r.slave answer) = .ok answer := by
        simp [accept, Rtu.decode_encode some, bind, Except.bind, pure, Except.pure]
      rw [message, same]
      simp only [Bool.not_true, Bool.false_eq_true, if_false, sent, received, accepted]
      exact ⟨trivial, view, sound.isOpen, serves⟩
  elapse {l} ms sound := by
    obtain ⟨serves, scene⟩ := ByteStream.serves_advance sound.serves ms
    exact ⟨scene, sound.isOpen, serves⟩

end RtuLink

end Modbus
