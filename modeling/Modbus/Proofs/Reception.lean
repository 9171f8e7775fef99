import Modbus.Proofs.Arrival

/-! A frame that has arrived is received whole at the first poll, whatever the time limit, and nothing after it is
touched. -/
namespace Modbus

variable {π : Type} {s : ByteStream π}

namespace ByteStream

/-- Open, without faults, and with nothing to happen later. -/
structure Calm (s : ByteStream π) : Prop where
  isOpen : s.isOpen = true
  faults : s.faults = {}
  schedule : s.schedule = []

theorem Calm.readable (calm : s.Calm) : s.Readable := by
  refine ⟨calm.isOpen, ?_, ?_⟩
  · rw [calm.faults]
  · rw [calm.faults]

theorem write_calm [Peer π] (calm : s.Calm) (bytes : List UInt8) :
    s.write bytes = (some bytes.length,
      { s with
        peer := (Peer.answer s.peer bytes).2
        queue := s.queue.append (Peer.answer s.peer bytes).1
        writes := bytes :: s.writes
        writeCount := s.writeCount + 1 }) := by
  simp [write, calm.faults, calm.isOpen]

theorem advance_calm (calm : s.Calm) (ms : Nat) : s.advance ms = { s with now := s.now + ms } := by
  simp [advance, calm.schedule]

end ByteStream

namespace Framing

variable {framing : Framing} {frame : List UInt8}

theorem polls_pos (framing : Framing) (timeout : Nat) (s : ByteStream π) : 0 < framing.polls timeout s := by
  have interval : 0 < framing.pollInterval := by cases framing <;> decide
  unfold polls
  dsimp only
  split
  · split
    · exact Nat.one_pos
    · exact Nat.succ_pos _
  · exact Nat.div_pos (by omega) interval

/-- Of a stream that holds a frame, the receiver takes the frame and leaves the rest. -/
theorem receive_frame (delimits : framing.Delimits frame) (calm : s.Calm) (timeout : Nat) {tail : List UInt8}
    (arrived : s.queue.pending = frame ++ tail) :
    ∃ queue readings, framing.receive timeout s = (.ok frame, { s with queue, readings }) ∧ queue.pending = tail := by
  obtain ⟨gathered, reads⟩ := gather_frame delimits calm.readable arrived
  obtain ⟨polls, count⟩ := Nat.exists_eq_succ_of_ne_zero (Nat.ne_of_gt (framing.polls_pos timeout s))
  obtain ⟨queue, readings, same⟩ := reads.only
  have rest := List.append_cancel_left (reads.pending.symm.trans arrived)
  have outcome : framing.gather s [] = (.frame frame, { s with queue, readings }) := Prod.ext gathered same
  rw [outcome] at rest
  refine ⟨queue, readings, ?_, rest⟩
  rw [receive, count, await, outcome]

theorem transmit_calm [Peer π] (calm : s.Calm) (frame : List UInt8) :
    framing.transmit s frame = (.ok (),
      { s with
        peer := (Peer.answer s.peer frame).2
        queue := s.queue.append (Peer.answer s.peer frame).1
        writes := frame :: s.writes
        writeCount := s.writeCount + 1 }) := by
  simp [transmit, s.write_calm calm frame, ByteStream.flushes, calm.isOpen, calm.faults]

end Framing

end Modbus
