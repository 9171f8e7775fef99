import Modbus.Proofs.Arrival

/-! What goes into a stream without faults comes out of it, in order. Reads of any size between writes and arrivals give
what was put in line so far, no byte twice and none left out, until the stream is closed. -/
namespace Modbus.ByteStream

variable {π : Type}

/-- What can be done with a stream, short of replacing what waits to be read. From `meet` on another peer answers. -/
inductive Use (π : Type) where
  | read (count : Nat)
  | write (bytes : List UInt8)
  | queue (bytes : List UInt8)
  | meet (peer : π)
  | close

/-- The bytes that a read gives. -/
def ReadResult.delivered : ReadResult → List UInt8
  | failed => []
  | bytes got => got

/-- Where bytes belong by what was done. Each write to an open stream puts the answer of the peer in line. -/
structure Ledger (π : Type) where
  isOpen : Bool := true
  peer : π
  offered : List UInt8 := []

/-- The stream lets its peer read every byte that is in line. -/
structure Accounts (l : Ledger π) (returned : List UInt8) (s : ByteStream π) : Prop where
  isOpen : s.isOpen = l.isOpen
  peer : s.peer = l.peer
  faultless : s.faults = {}
  balance : returned ++ s.queue.pending = l.offered

variable [Peer π]

/-- The bytes that are handed over, which only a read does, and the stream afterwards. -/
def use (s : ByteStream π) : Use π → List UInt8 × ByteStream π
  | .read count => ((s.read count).1.delivered, (s.read count).2)
  | .write bytes => ([], (s.write bytes).2)
  | .queue bytes => ([], s.deliver bytes)
  | .meet peer => ([], { s with peer })
  | .close => ([], s.close)

/-- All bytes that a whole run hands over, and the stream at its end. -/
def run (s : ByteStream π) : List (Use π) → List UInt8 × ByteStream π
  | [] => ([], s)
  | u :: rest =>
    let (first, next) := s.use u
    let (later, last) := next.run rest
    (first ++ later, last)

namespace Ledger

def enter (l : Ledger π) : Use π → Ledger π
  | .read _ => l
  | .write bytes =>
    if l.isOpen then
      { l with peer := (Peer.answer l.peer bytes).2, offered := l.offered ++ (Peer.answer l.peer bytes).1 }
    else l
  | .queue bytes => { l with offered := l.offered ++ bytes }
  | .meet peer => { l with peer }
  | .close => { l with isOpen := false }

def of (peer : π) (uses : List (Use π)) : Ledger π := uses.foldl enter { peer }

theorem isOpen_foldl (uses : List (Use π)) (l : Ledger π) :
    (uses.foldl enter l).isOpen = true ↔ l.isOpen = true ∧ .close ∉ uses := by
  induction uses generalizing l with
  | nil => exact (and_iff_left List.not_mem_nil).symm
  | cons u rest ih =>
    rw [List.foldl_cons, ih, List.mem_cons, not_or, ← and_assoc]
    refine and_congr_left fun _ => ?_
    cases u with
    | close => exact iff_of_false nofun fun both => both.2 rfl
    | write bytes =>
      rw [enter]
      split <;> exact (and_iff_left nofun).symm
    | read | queue | meet => exact (and_iff_left nofun).symm

end Ledger

section Answers

variable {s : ByteStream π}

omit [Peer π] in
theorem read_of_open (isOpen : s.isOpen = true) (faultless : s.faults = {}) (n : Nat) :
    (s.read n).1 = .bytes (s.queue.pending.take n) ∧ (s.read n).2.isOpen = true ∧ (s.read n).2.peer = s.peer ∧
      (s.read n).2.faults = {} ∧ (s.read n).2.queue.pending = s.queue.pending.drop n := by
  have done : s.read n = (.bytes (s.queue.pending.take n),
      { s with queue := (s.queue.read n).2, readings := ⟨n, s.queue.pending.take n⟩ :: s.readings }) := by
    simp [read, isOpen, faultless, Faults.readLimit, Queue.read]
  rw [done]
  exact ⟨rfl, isOpen, rfl, faultless, s.queue.pending_read n⟩

omit [Peer π] in
/-- A closed stream notes that a read was tried, and nothing else. -/
theorem read_of_closed (closed : s.isOpen = false) (faultless : s.faults = {}) (n : Nat) :
    s.read n = (.failed, { s with readings := ⟨n, []⟩ :: s.readings }) := by
  simp [read, closed, faultless]

theorem write_of_open (isOpen : s.isOpen = true) (faultless : s.faults = {}) (bytes : List UInt8) :
    s.write bytes = (some bytes.length,
      { s with
        peer := (Peer.answer s.peer bytes).2
        queue := s.queue.append (Peer.answer s.peer bytes).1
        writes := bytes :: s.writes
        writeCount := s.writeCount + 1 }) := by
  simp [write, isOpen, faultless]

theorem write_of_closed (closed : s.isOpen = false) (bytes : List UInt8) : s.write bytes = (none, s) := by
  simp [write, closed]

end Answers

namespace Accounts

variable {l : Ledger π} {returned : List UInt8} {s : ByteStream π}

theorem use (h : Accounts l returned s) (u : Use π) : Accounts (l.enter u) (returned ++ (s.use u).1) (s.use u).2 := by
  cases u with
  | read n =>
    cases state : s.isOpen with
    | false =>
      rw [ByteStream.use, read_of_closed state h.faultless]
      exact ⟨h.isOpen, h.peer, h.faultless, by rw [ReadResult.delivered, List.append_nil]; exact h.balance⟩
    | true =>
      obtain ⟨got, isOpen, peer, faultless, rest⟩ := read_of_open state h.faultless n
      refine ⟨isOpen.trans (state.symm.trans h.isOpen), peer.trans h.peer, faultless, ?_⟩
      rw [ByteStream.use, got, rest, ReadResult.delivered, List.append_assoc, List.take_append_drop]
      exact h.balance
  | write bytes =>
    cases state : s.isOpen with
    | false =>
      rw [ByteStream.use, write_of_closed state, Ledger.enter, ← h.isOpen, state, List.append_nil]
      exact h
    | true =>
      rw [ByteStream.use, write_of_open state h.faultless, Ledger.enter, ← h.isOpen, if_pos state, ← h.peer]
      refine ⟨rfl, rfl, h.faultless, ?_⟩
      rw [List.append_nil, Queue.pending_append, ← List.append_assoc, h.balance]
  | queue bytes =>
    refine ⟨h.isOpen, h.peer, h.faultless, ?_⟩
    rw [ByteStream.use, List.append_nil, deliver, Queue.pending_append, ← List.append_assoc, h.balance]
    rfl
  | meet peer =>
    refine ⟨h.isOpen, rfl, h.faultless, ?_⟩
    rw [ByteStream.use, List.append_nil]
    exact h.balance
  | close =>
    have closed : s.close = { s with isOpen := false } := by simp [ByteStream.close, h.faultless]
    rw [ByteStream.use, closed, List.append_nil]
    exact ⟨rfl, h.peer, h.faultless, h.balance⟩

theorem run (h : Accounts l returned s) (uses : List (Use π)) :
    Accounts (uses.foldl Ledger.enter l) (returned ++ (s.run uses).1) (s.run uses).2 := by
  -- As for one use, with what was handed over so far in front of what the others hand over.
  induction uses generalizing l returned s with
  | nil =>
    rw [ByteStream.run, List.append_nil]
    exact h
  | cons u rest ih =>
    have later := ih (h.use u)
    rw [List.append_assoc] at later
    exact later

end Accounts

/-- A fresh stream is open until it is closed. What reads have given, followed by what can still be read, is at any time
what was put in line, so the read position stays within the buffer and the bytes available are counted exactly. An open
stream gives as many of them as a read asks for. Once it is closed, every read and every write fails and leaves the stream
as it was, apart from the note of a read. -/
theorem run_conserves (peer : π) (uses : List (Use π)) :
    let (returned, stream) := ({ peer } : ByteStream π).run uses
    let offered := (Ledger.of peer uses).offered
    (stream.isOpen = true ↔ .close ∉ uses) ∧
      stream.queue.position ≤ stream.queue.buffer.length ∧
      (stream.isOpen = true →
        returned ++ stream.queue.pending = offered ∧
        returned.length + stream.available = offered.length ∧
        stream.queue.position + stream.available = stream.queue.buffer.length ∧
        ∀ n, (stream.read n).1 = .bytes (stream.queue.pending.take n)) ∧
      (stream.isOpen = false → ∀ n bytes,
        stream.read n = (.failed, { stream with readings := ⟨n, []⟩ :: stream.readings }) ∧
        stream.write bytes = (none, stream)) := by
  have fresh : Accounts { peer } [] ({ peer } : ByteStream π) := ⟨rfl, rfl, rfl, rfl⟩
  have done := fresh.run uses
  rw [List.nil_append] at done
  generalize ({ peer } : ByteStream π).run uses = result at done
  obtain ⟨returned, stream⟩ := result
  dsimp only at done ⊢
  have inside := stream.queue.position_le
  refine ⟨?_, inside, ?_, ?_⟩
  · rw [done.isOpen, Ledger.isOpen_foldl]
    exact and_iff_right rfl
  · intro isOpen
    have available : stream.available = stream.queue.available := by rw [available, if_pos isOpen]
    refine ⟨done.balance, ?_, ?_, fun n => (read_of_open isOpen done.faultless n).1⟩
    · rw [available, ← Queue.length_pending, ← List.length_append, done.balance]
      rfl
    · rw [available, Queue.available]
      omega
  · intro closed n bytes
    exact ⟨read_of_closed closed done.faultless n, write_of_closed closed bytes⟩

/-- The third byte is still in line when an answer comes, and the peer is another one when the next answer does. What is
queued behind the close can no longer be read. -/
theorem run_conserves_echo :
    let uses : List (Use Loopback) :=
      [.queue [1, 2, 3], .read 2, .write [9, 8], .read 0, .meet .reverse, .write [6, 7], .read 3]
    let opened := ({ peer := .echo } : ByteStream Loopback).run uses
    let closed := ({ peer := .echo } : ByteStream Loopback).run (uses ++ [.close, .queue [5]])
    opened.2.isOpen = true ∧ opened.1 ++ opened.2.queue.pending = [1, 2, 3, 9, 8, 7, 6] ∧ opened.1.length = 5 ∧
      closed.2.isOpen = false ∧ (closed.2.read 4).1 = .failed ∧ closed.2.write [1] = (none, closed.2) := by
  intro uses opened closed
  have isOpen : opened.2.isOpen = true := by decide +kernel
  have isClosed : closed.2.isOpen = false := by decide +kernel
  obtain ⟨-, -, conserved, -⟩ := run_conserves Loopback.echo uses
  obtain ⟨-, -, -, fails⟩ := run_conserves Loopback.echo (uses ++ [.close, .queue [5]])
  obtain ⟨read, write⟩ := fails isClosed 4 [1]
  exact ⟨isOpen, (conserved isOpen).1, by decide +kernel, isClosed, congrArg Prod.fst read, write⟩

end Modbus.ByteStream
