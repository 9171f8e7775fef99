import Modbus.Proofs.Arrival

/-! What a wait for a frame leaves on the stream. If frames come whole, one of them is read or nothing is; if they come
in pieces, the next frame is read to its end or a part of it is lost. -/
namespace Modbus

variable {π : Type} {s s' : ByteStream π} {P : List UInt8 → Prop}

/-- Frames of a kind, one after another. -/
def Whole (P : List UInt8 → Prop) (bytes : List UInt8) : Prop :=
  ∃ frames : List (List UInt8), (∀ frame ∈ frames, P frame) ∧ frames.flatten = bytes

namespace Whole

theorem nil : Whole P [] := ⟨[], nofun, rfl⟩

theorem one {frame : List UInt8} (is : P frame) : Whole P frame := by
  refine ⟨[frame], ?_, List.append_nil frame⟩
  intro other member
  rwa [List.mem_singleton.mp member]

theorem append {bytes more : List UInt8} (first : Whole P bytes) (second : Whole P more) : Whole P (bytes ++ more) := by
  obtain ⟨frames, all, rfl⟩ := first
  obtain ⟨others, rest, rfl⟩ := second
  refine ⟨frames ++ others, ?_, List.flatten_append⟩
  intro frame member
  rcases List.mem_append.mp member with member | member
  · exact all frame member
  · exact rest frame member

end Whole

theorem flatten_take_succ {frames : List (List UInt8)} {k : Nat} {frame : List UInt8} (next : frames[k]? = some frame) :
    (frames.take (k + 1)).flatten = (frames.take k).flatten ++ frame := by
  rw [List.take_add_one, next, List.flatten_append]
  simp only [Option.toList_some, List.flatten_cons, List.flatten_nil, List.append_nil]

/-- Whatever is written to the peer, now and later, it answers with whole frames. -/
def Peer.Sends [Peer π] (P : List UInt8 → Prop) (peer : π) : Prop :=
  ∀ (before : List (List UInt8)) (written : List UInt8),
    Whole P (Peer.answer (before.foldl (fun peer written => (Peer.answer peer written).2) peer) written).1

theorem Peer.Sends.now [Peer π] {peer : π} (sends : Peer.Sends P peer) (written : List UInt8) :
    Whole P (Peer.answer peer written).1 := sends [] written

theorem Peer.Sends.later [Peer π] {peer : π} (sends : Peer.Sends P peer) (written : List UInt8) :
    Peer.Sends P (Peer.answer peer written).2 := fun before => sends (written :: before)

theorem Loopback.silent_sends : Peer.Sends P Loopback.silent := by
  intro before written
  have still : before.foldl (fun peer written => (Peer.answer peer written).2) Loopback.silent = .silent := by
    induction before with
    | nil => rfl
    | cons first before ih => exact ih
  rw [still]
  exact .nil

namespace ByteStream

def Occurrence.Brings (P : List UInt8 → Prop) : Occurrence → Prop
  | deliver bytes => Whole P bytes
  | hangUp => True

/-- Whole frames wait to be read, and nothing else will come. -/
structure Carries [Peer π] (P : List UInt8 → Prop) (s : ByteStream π) : Prop where
  pending : Whole P s.queue.pending
  schedule : ∀ entry ∈ s.schedule, entry.occurrence.Brings P
  peer : Peer.Sends P s.peer

namespace Carries

variable [Peer π]

theorem happen (carries : s.Carries P) {o : Occurrence} (brings : o.Brings P) : (s.happen o).Carries P := by
  cases o with
  | deliver bytes => exact ⟨carries.pending.append brings, carries.schedule, carries.peer⟩
  | hangUp =>
    simp only [ByteStream.happen, close]
    split
    · exact carries
    · exact ⟨carries.pending, carries.schedule, carries.peer⟩

theorem happenings (carries : s.Carries P) {due : List Scheduled} (brings : ∀ entry ∈ due, entry.occurrence.Brings P) :
    (due.foldl (fun s entry => s.happen entry.occurrence) s).Carries P := by
  induction due generalizing s with
  | nil => exact carries
  | cons entry due ih =>
    exact ih (carries.happen (brings entry List.mem_cons_self)) fun other member =>
      brings other (List.mem_cons_of_mem _ member)

theorem advance (carries : s.Carries P) (ms : Nat) : (s.advance ms).Carries P := by
  have due := carries.happenings fun entry member =>
    carries.schedule entry ((List.takeWhile_sublist (·.due ≤ s.now + ms)).subset member)
  refine ⟨due.pending, ?_, due.peer⟩
  intro entry member
  exact carries.schedule entry ((List.dropWhile_sublist _).subset member)

theorem read (carries : s.Carries P) {part : List UInt8} (reads : s.Reads s' part) (rest : Whole P s'.queue.pending) :
    s'.Carries P := by
  obtain ⟨queue, readings, rfl⟩ := reads.only
  exact ⟨rest, carries.schedule, carries.peer⟩

theorem write (carries : s.Carries P) (bytes : List UInt8) : (s.write bytes).2.Carries P := by
  unfold ByteStream.write
  split
  · exact carries
  · exact ⟨carries.pending.append (carries.peer.now bytes), carries.schedule, carries.peer.later bytes⟩

end Carries

end ByteStream

namespace Framing

variable {framing : Framing} {frame buffer tail base : List UInt8} {timeout : Nat}

/-- How a wait for a frame ends that begins behind `base`: a frame is read, or the wait fails over the time or the
medium. -/
inductive Received (whole part : List UInt8 → Prop) (base : List UInt8) (s' : ByteStream π) :
    Except Error (List UInt8) → Prop where
  | frame {bytes : List UInt8} (is : whole bytes) (consumed : s'.consumed = base ++ bytes) :
      Received whole part base s' (.ok bytes)
  | nothing {bytes : List UInt8} {e : Error} (is : part bytes) (consumed : s'.consumed = base ++ bytes)
      (kind : e.kind ≠ .protocol) : Received whole part base s' (.error e)

theorem Delimits.ne_nil (delimits : framing.Delimits frame) : frame ≠ [] := by
  rintro rfl
  have complete := delimits.complete
  cases framing with
  | mbap => nomatch complete
  | rtu => nomatch complete

/-- What reads and sleeps keep, a wait keeps. -/
theorem await_kept {Q : ByteStream π → Prop} (framing : Framing)
    (read : ∀ {s s' : ByteStream π} {part : List UInt8}, s.Reads s' part → Q s → Q s')
    (sleep : ∀ s, Q s → Q (s.advance framing.pollInterval)) {s : ByteStream π} (now : Q s) (timeout : Nat)
    (buffer : List UInt8) (polls : Nat) : Q (framing.await timeout s buffer polls).2 := by
  induction polls generalizing s buffer with
  | zero => exact now
  | succ polls ih =>
    obtain ⟨part, reads⟩ := framing.gather_reads s buffer
    have kept := read reads now
    rw [await]
    split
    · next gathered => exact congrArg Prod.snd gathered ▸ kept
    · next gathered => exact congrArg Prod.snd gathered ▸ kept
    · next gathered =>
      rw [gathered] at kept
      exact ih (sleep _ kept) _

theorem await_continues (framing : Framing) (timeout : Nat) (s : ByteStream π) (buffer : List UInt8) (polls : Nat) :
    s.Continues (framing.await timeout s buffer polls).2 :=
  framing.await_kept (Q := s.Continues) (fun reads before => before.trans reads.continues)
    (fun there before => before.trans (there.advance_continues _)) (.refl s) timeout buffer polls

theorem receive_continues (framing : Framing) (timeout : Nat) (s : ByteStream π) :
    s.Continues (framing.receive timeout s).2 := framing.await_continues timeout s [] (framing.polls timeout s)

/-- From a stream of any kind a wait reads a complete frame, which it returns, or an incomplete one. -/
theorem await_delivers (framing : Framing) (timeout : Nat) (s : ByteStream π) {buffer : List UInt8} (polls : Nat)
    (short : framing.need buffer ≠ .complete) :
    ∃ part, (framing.await timeout s buffer polls).2.consumed = s.consumed ++ part ∧
      ∀ frame, (framing.await timeout s buffer polls).1 = .ok frame ↔
        framing.need (buffer ++ part) = .complete ∧ buffer ++ part = frame := by
  induction polls generalizing s buffer with
  | zero =>
    refine ⟨[], (List.append_nil _).symm, ?_⟩
    intro frame
    rw [List.append_nil]
    exact ⟨nofun, fun complete => absurd complete.1 short⟩
  | succ polls ih =>
    obtain ⟨part, reads, gathers⟩ := framing.gather_delivers s buffer
    rw [await]
    generalize framing.gather s buffer = result at reads gathers ⊢
    obtain ⟨gathered, s'⟩ := result
    cases gathers with
    | frame complete =>
      refine ⟨part, reads.consumed, ?_⟩
      intro frame
      exact ⟨fun ok => ⟨complete, Except.ok.inj ok⟩, fun same => congrArg Except.ok same.2⟩
    | waiting short =>
      obtain ⟨rest, consumed, ok⟩ := ih (s'.advance framing.pollInterval) short
      rw [ByteStream.consumed_advance, reads.consumed, List.append_assoc] at consumed
      rw [List.append_assoc] at ok
      exact ⟨part ++ rest, consumed, ok⟩
    | failed short =>
      refine ⟨part, reads.consumed, ?_⟩
      intro frame
      exact ⟨nofun, fun complete => absurd complete.1 short⟩

theorem need_nil (framing : Framing) : framing.need [] ≠ .complete := by
  cases framing with
  | mbap => nofun
  | rtu => nofun

theorem receive_delivers (framing : Framing) (timeout : Nat) (s : ByteStream π) :
    ∃ part, (framing.receive timeout s).2.consumed = s.consumed ++ part ∧
      ∀ frame, (framing.receive timeout s).1 = .ok frame ↔ framing.need part = .complete ∧ part = frame :=
  framing.await_delivers timeout s (framing.polls timeout s) framing.need_nil

theorem kind_over (timeout : Nat) : (if timeout = 0 then Error.stalled else .timedOut timeout).kind ≠ .protocol := by
  split
  · nofun
  · nofun

/-- Frames that come in pieces: the next one is read to its end, or a part of it is lost. -/
theorem await_frame (delimits : framing.Delimits frame) {polls : Nat} (begun : buffer <+: frame) (short : buffer ≠ frame)
    (consumed : s.consumed = base ++ buffer)
    (fits : (framing.await timeout s buffer polls).2.arrived <+: base ++ (frame ++ tail)) :
    Received (· = frame) (fun part => part <+: frame ∧ part ≠ frame) base (framing.await timeout s buffer polls).2
      (framing.await timeout s buffer polls).1 := by
  induction polls generalizing s buffer with
  | zero => exact .nothing ⟨begun, short⟩ consumed (kind_over timeout)
  | succ polls ih =>
    have arrived : buffer ++ s.queue.pending <+: frame ++ tail := by
      have all := (framing.await_continues timeout s buffer (polls + 1)).arrived.trans fits
      rw [ByteStream.arrived, consumed, List.append_assoc] at all
      exact (List.prefix_append_right_inj base).mp all
    have takes := gather_takes delimits begun arrived
    rw [await] at fits ⊢
    generalize framing.gather s buffer = result at takes fits ⊢
    obtain ⟨gathered, s'⟩ := result
    cases takes with
    | whole reads ends =>
      refine .frame rfl ?_
      rw [reads.consumed, consumed, List.append_assoc, ends]
    | part reads inside short =>
      refine ih inside short ?_ fits
      rw [ByteStream.consumed_advance, reads.consumed, consumed, List.append_assoc]
    | failed unreadable kind reads =>
      refine .nothing ⟨begun, short⟩ ?_ (by rw [kind]; decide)
      rw [reads.consumed, consumed, List.append_nil]

theorem receive_frame_or_part (delimits : framing.Delimits frame) (timeout : Nat)
    (fits : (framing.receive timeout s).2.arrived <+: s.consumed ++ (frame ++ tail)) :
    Received (· = frame) (fun part => part <+: frame ∧ part ≠ frame) s.consumed (framing.receive timeout s).2
      (framing.receive timeout s).1 :=
  await_frame delimits (List.nil_prefix) delimits.ne_nil.symm (List.append_nil _).symm fits

/-- Of whole frames, gathering takes one or none. -/
theorem gather_whole (delimits : ∀ frame, P frame → framing.Delimits frame) (whole : Whole P s.queue.pending) :
    ∃ part, s.Reads (framing.gather s []).2 part ∧ Whole P (framing.gather s []).2.queue.pending ∧
      (P part ∧ (framing.gather s []).1 = .frame part ∨
        part = [] ∧ ((framing.gather s []).1 = .waiting [] ∨
          ∃ e, (framing.gather s []).1 = .failed e ∧ e.kind = .connection)) := by
  obtain ⟨frames, all, pending⟩ := whole
  by_cases nothing : s.Readable → s.queue.pending = []
  · obtain ⟨reads, outcome⟩ := framing.gather_nothing nothing
    exact ⟨[], reads, ⟨frames, all, pending.trans reads.pending⟩, .inr ⟨rfl, outcome⟩⟩
  · obtain ⟨readable, some⟩ := Classical.not_imp.mp nothing
    cases frames with
    | nil => exact absurd pending.symm some
    | cons frame rest =>
      obtain ⟨got, reads⟩ := gather_frame (delimits frame (all frame List.mem_cons_self)) readable pending.symm
      have left : rest.flatten = (framing.gather s []).2.queue.pending :=
        List.append_cancel_left (pending.trans reads.pending)
      refine ⟨frame, reads, ⟨rest, ?_, left⟩, .inl ⟨all frame List.mem_cons_self, got⟩⟩
      intro other member
      exact all other (List.mem_cons_of_mem frame member)

/-- Frames that come whole: one is read, or nothing is. -/
theorem await_whole [Peer π] (delimits : ∀ frame, P frame → framing.Delimits frame) (carries : s.Carries P)
    (timeout polls : Nat) :
    (framing.await timeout s [] polls).2.Carries P ∧
      Received P (· = []) s.consumed (framing.await timeout s [] polls).2 (framing.await timeout s [] polls).1 := by
  induction polls generalizing s with
  | zero => exact ⟨carries, .nothing rfl (List.append_nil _).symm (kind_over timeout)⟩
  | succ polls ih =>
    obtain ⟨part, reads, rest, outcome⟩ := gather_whole delimits carries.pending
    have carries := carries.read reads rest
    rw [await]
    generalize framing.gather s [] = result at reads outcome carries ⊢
    obtain ⟨gathered, s'⟩ := result
    dsimp only at reads outcome carries
    rcases outcome with ⟨is, rfl⟩ | ⟨rfl, rfl | ⟨e, rfl, kind⟩⟩
    · exact ⟨carries, .frame is reads.consumed⟩
    · have later := ih (carries.advance framing.pollInterval)
      rw [ByteStream.consumed_advance, reads.consumed, List.append_nil] at later
      exact later
    · exact ⟨carries, .nothing rfl reads.consumed (by rw [kind]; decide)⟩

end Framing

end Modbus
