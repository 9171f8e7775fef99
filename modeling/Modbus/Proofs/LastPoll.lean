import Modbus.Proofs.Segments

/-! The end of a wait. What comes after the last poll within the time limit is not seen any more: the sleep behind it may
end past the limit, and then the wait is given up before the stream is looked at again. -/
namespace Modbus

variable {π : Type} {s s' : ByteStream π}

namespace ByteStream

/-- Until the next thing is due, only the clock moves. -/
theorem advance_early {ms : Nat} (early : ∀ entry ∈ s.schedule, s.now + ms < entry.due) :
    s.advance ms = { s with now := s.now + ms } := by
  have none : s.schedule.takeWhile (·.due ≤ s.now + ms) = [] ∧ s.schedule.dropWhile (·.due ≤ s.now + ms) = s.schedule := by
    cases schedule : s.schedule with
    | nil => exact ⟨rfl, rfl⟩
    | cons first rest =>
      have late : ¬ first.due ≤ s.now + ms := Nat.not_le_of_lt (early first (schedule ▸ List.mem_cons_self))
      exact ⟨List.takeWhile_cons_of_neg (by simpa using late), List.dropWhile_cons_of_neg (by simpa using late)⟩
  simp only [advance, none, List.foldl_nil]

end ByteStream

namespace Framing

variable {framing : Framing} {timeout p : Nat} {frame buffer base tail : List UInt8}

theorem outstanding_atPoll (framing : Framing) (p : Nat) (s : ByteStream π) :
    (framing.atPoll p s).outstanding = s.outstanding := by
  induction p generalizing s with
  | zero => rfl
  | succ p ih => exact (ih _).trans (s.outstanding_advance _)

/-- What is due later is not there yet. -/
theorem pending_atPoll_early (early : ∀ entry ∈ s.schedule, s.now + p * framing.pollInterval < entry.due) :
    (framing.atPoll p s).queue.pending = s.queue.pending := by
  induction p generalizing s with
  | zero => rfl
  | succ p ih =>
    have later : ∀ entry ∈ s.schedule, s.now + framing.pollInterval + p * framing.pollInterval < entry.due := by
      intro entry member
      have due := early entry member
      rw [Nat.succ_mul] at due
      omega
    have still : s.advance framing.pollInterval = { s with now := s.now + framing.pollInterval } :=
      ByteStream.advance_early fun entry member => Nat.lt_of_le_of_lt (Nat.le_add_right ..) (later entry member)
    rw [atPoll, still]
    exact ih (s := { s with now := s.now + framing.pollInterval }) later

/-- All that is due by then is there. -/
theorem pending_atPoll_due (due : ∀ entry ∈ s.schedule, entry.due ≤ s.now + (p + 1) * framing.pollInterval) :
    (framing.atPoll (p + 1) s).queue.pending = s.outstanding := by
  have all := framing.outstanding_atPoll (p + 1) s
  rwa [ByteStream.outstanding, framing.schedule_atPoll p due, List.flatMap_nil, List.append_nil] at all

/-- Before a frame is whole, all that is there of it is read, and the wait goes on. -/
theorem gather_of_short (delimits : framing.Delimits frame) (begun : buffer <+: frame)
    (consumed : s.consumed = base ++ buffer) (readable : (framing.atPoll p s).Readable)
    (inside : (framing.atPoll p s).arrived <+: base ++ frame) (short : (framing.atPoll p s).arrived ≠ base ++ frame) :
    ∃ part s', framing.gather s buffer = (.waiting (buffer ++ part), s') ∧ s.Reads s' part ∧ buffer ++ part <+: frame := by
  have before := (framing.atPoll_continues p s).arrived
  have fits : buffer ++ s.queue.pending <+: frame ++ [] := by
    have now := before.trans inside
    rw [ByteStream.arrived, consumed, List.append_assoc] at now
    rw [List.append_nil]
    exact (List.prefix_append_right_inj base).mp now
  have takes := gather_takes delimits begun fits
  generalize framing.gather s buffer = result at takes ⊢
  obtain ⟨gathered, s'⟩ := result
  cases takes with
  | @whole part reads ends =>
    have all : base ++ frame <+: s.arrived := by
      rw [reads.arrived_eq, ByteStream.arrived, reads.consumed, consumed, List.append_assoc base buffer part, ends]
      exact List.prefix_append _ _
    exact absurd (inside.eq_of_length_le (all.trans before).length_le) short
  | @part part reads begun _ _ _ => exact ⟨part, s', rfl, reads, begun⟩
  | failed unreadable => exact absurd (readable_of_atPoll readable) unreadable

/-- A frame that is not whole at the last poll is given up. -/
theorem await_of_short (delimits : framing.Delimits frame) (limited : timeout ≠ 0) (begun : buffer <+: frame)
    (consumed : s.consumed = base ++ buffer) (readable : (framing.atPoll p s).Readable)
    (inside : (framing.atPoll p s).arrived <+: base ++ frame) (short : (framing.atPoll p s).arrived ≠ base ++ frame) :
    (framing.await timeout s buffer (p + 1)).1 = .error (.timedOut timeout) := by
  induction p generalizing s buffer with
  | zero =>
    obtain ⟨part, s', gathered, reads, begun⟩ := gather_of_short delimits begun consumed readable inside short
    rw [await, gathered]
    dsimp only
    rw [await, if_neg limited]
  | succ p ih =>
    obtain ⟨part, s', gathered, reads, begun⟩ := gather_of_short delimits begun consumed readable inside short
    -- What is read now does not change what will have come by the last poll.
    have later := framing.reads_atPoll p (reads.advance framing.pollInterval)
    rw [await, gathered]
    dsimp only
    refine ih begun ?_ (later.readable_iff.mpr readable) (later.arrived_eq ▸ inside) (later.arrived_eq ▸ short)
    rw [ByteStream.consumed_advance, reads.consumed, consumed, List.append_assoc]

theorem receive_of_late (delimits : framing.Delimits frame) (limited : 0 < timeout)
    (last : framing.polls timeout s = p + 1) (only : s.outstanding = frame ++ tail)
    (readable : (framing.atPoll p s).Readable) (late : ¬ frame <+: (framing.atPoll p s).queue.pending) :
    (framing.receive timeout s).1 = .error (.timedOut timeout) := by
  have there : (framing.atPoll p s).queue.pending <+: frame := by
    have all : (framing.atPoll p s).queue.pending <+: frame ++ tail := by
      rw [← only, ← framing.outstanding_atPoll p s]
      exact List.prefix_append _ _
    exact (List.prefix_or_prefix_of_prefix all (List.prefix_append frame tail)).resolve_right late
  have arrived : (framing.atPoll p s).arrived = s.consumed ++ (framing.atPoll p s).queue.pending := by
    rw [ByteStream.arrived, framing.consumed_atPoll]
  rw [receive, last]
  refine await_of_short delimits (Nat.ne_of_gt limited) List.nil_prefix (List.append_nil _).symm readable ?_ ?_
  · rw [arrived]
    exact (List.prefix_append_right_inj _).mpr there
  · rw [arrived]
    intro whole
    exact late (List.append_cancel_left whole ▸ List.prefix_refl _)

theorem polls_mbap (limited : 0 < timeout) (s : ByteStream π) : mbap.polls timeout s = (timeout - 1) / 10 + 1 := by
  unfold polls
  rw [if_neg (Nat.ne_of_gt limited)]
  change (timeout + 10 - 1) / 10 = (timeout - 1) / 10 + 1
  omega

/-- A frame that comes one millisecond before the limit is there at the last poll if that is when it takes place. -/
theorem whole_at_last_poll_iff (more : 1 < timeout) (long : frame ≠ []) (only : s.outstanding = frame ++ tail)
    (nothing : s.queue.pending = []) (due : ∀ entry ∈ s.schedule, entry.due = s.now + (timeout - 1)) :
    frame <+: (mbap.atPoll ((timeout - 1) / 10) s).queue.pending ↔ timeout % 10 = 1 := by
  constructor
  · intro whole
    refine Decidable.not_not.mp fun uneven => ?_
    have still : (mbap.atPoll ((timeout - 1) / 10) s).queue.pending = s.queue.pending := by
      refine pending_atPoll_early ?_
      intro entry member
      rw [due entry member]
      change s.now + (timeout - 1) / 10 * 10 < s.now + (timeout - 1)
      omega
    rw [still, nothing] at whole
    exact long (List.prefix_nil.mp whole)
  · intro even
    obtain ⟨p, count⟩ : ∃ p, (timeout - 1) / 10 = p + 1 := Nat.exists_eq_succ_of_ne_zero (by omega)
    have all : (mbap.atPoll ((timeout - 1) / 10) s).queue.pending = s.outstanding := by
      rw [count]
      refine pending_atPoll_due ?_
      intro entry member
      rw [due entry member]
      change s.now + (timeout - 1) ≤ s.now + (p + 1) * 10
      omega
    exact ⟨tail, only.symm.trans all.symm⟩

end Framing

namespace TcpLink

variable [Peer π] {l : TcpLink π} {r : Request} {f : Mbap.Frame} {request tail : List UInt8}

/-- Polls are ten milliseconds apart, so the last one within a limit can be up to nine milliseconds before it. The answer
to a request is returned exactly if it is whole at the last poll, and otherwise the time is over, whether or not it is
whole before the limit. An answer that comes one millisecond before the limit is lost, but for limits after whose last
poll there is no time left. -/
theorem send_timedOut_iff_late (limited : 0 < l.timeout)
    (sent : (⟨l, r⟩ : Call (TcpLink π)).frame? = some request) (orderly : l.stream.Orderly)
    (transaction : f.transactionId = l.nextTransaction) (unit : f.unitId = r.slave) :
    let s := (l.stream.write request).2
    let last := Framing.mbap.atPoll ((l.timeout - 1) / 10) s
    s.outstanding = f.bytes ++ tail → last.Readable →
      ((l.send r).1 = .ok f.pdu ↔ f.bytes <+: last.queue.pending) ∧
      ((l.send r).1 = .error (.timedOut l.timeout) ↔ ¬ f.bytes <+: last.queue.pending) ∧
      (1 < l.timeout → s.queue.pending = [] → (∀ entry ∈ s.schedule, entry.due = s.now + (l.timeout - 1)) →
        ((l.send r).1 = .error (.timedOut l.timeout) ↔ l.timeout % 10 ≠ 1)) := by
  intro s last only readable
  have inTime (whole : f.bytes <+: last.queue.pending) : (l.send r).1 = .ok f.pdu := by
    have early : (l.timeout - 1) / 10 * 10 < l.timeout := by omega
    obtain ⟨outcome, -, -⟩ := Call.of_timely (c := (⟨l, r⟩ : Call (TcpLink π))) sent rfl f.delimits orderly
      ⟨_, .inr early, readable, whole⟩
    refine outcome.trans (accept_frame.trans ?_)
    rw [if_neg (not_not_intro transaction), if_neg (not_not_intro unit)]
  have late (short : ¬ f.bytes <+: last.queue.pending) : (l.send r).1 = .error (.timedOut l.timeout) := by
    obtain ⟨outcome, -⟩ := Call.waits (c := (⟨l, r⟩ : Call (TcpLink π))) sent rfl
    have received : (Framing.mbap.receive l.timeout s).1 = .error (.timedOut l.timeout) :=
      Framing.receive_of_late f.delimits limited (Framing.polls_mbap limited s) only readable short
    exact outcome.trans (congrArg (· >>= _) received)
  have expires : (l.send r).1 = .error (.timedOut l.timeout) ↔ ¬ f.bytes <+: last.queue.pending := by
    refine ⟨?_, late⟩
    intro timedOut whole
    rw [inTime whole] at timedOut
    nomatch timedOut
  refine ⟨⟨?_, inTime⟩, expires, ?_⟩
  · intro ok
    refine Decidable.not_not.mp fun short => ?_
    rw [late short] at ok
    nomatch ok
  · intro more nothing due
    rw [expires, ne_eq, not_iff_not]
    exact Framing.whole_at_last_poll_iff more f.delimits.ne_nil only nothing due

/-- The answer comes one millisecond before the limit. -/
def justBefore (timeout : Nat) : TcpLink Loopback :=
  { stream := { peer := .silent, schedule := [⟨timeout - 1, .deliver lateAnswer.bytes⟩] }, timeout }

/-- The last polls are at 10 and at 20 milliseconds, one of them too early and one just in time. -/
theorem send_timedOut_iff_late_justBefore :
    ((justBefore 15).send oneRegister).1 = .error (.timedOut 15) ∧
      ((justBefore 21).send oneRegister).1 = .ok lateAnswer.pdu := by
  have only (timeout : Nat) : ((justBefore timeout).stream.write [0, 1, 0, 0, 0, 6, 1, 0x03, 0, 0, 0, 1]).2.outstanding =
      lateAnswer.bytes ++ [] := rfl
  constructor
  · have sent : (⟨justBefore 15, oneRegister⟩ : Call (TcpLink Loopback)).frame? =
        some [0, 1, 0, 0, 0, 6, 1, 0x03, 0, 0, 0, 1] := by decide +kernel
    obtain ⟨-, -, early⟩ := send_timedOut_iff_late (by decide) sent (by decide +kernel) rfl rfl (only 15)
      ⟨by decide +kernel, by decide +kernel, by decide +kernel⟩
    exact (early (by decide) (by decide +kernel) (by decide +kernel)).mpr (by decide)
  · have sent : (⟨justBefore 21, oneRegister⟩ : Call (TcpLink Loopback)).frame? =
        some [0, 1, 0, 0, 0, 6, 1, 0x03, 0, 0, 0, 1] := by decide +kernel
    obtain ⟨inTime, -, -⟩ := send_timedOut_iff_late (by decide) sent (by decide +kernel) rfl rfl (only 21)
      ⟨by decide +kernel, by decide +kernel, by decide +kernel⟩
    exact inTime.mpr (by decide +kernel)

/-- The answer is whole after one millisecond of ten. -/
def soonAnswered : TcpLink Loopback :=
  { stream := { peer := .silent, schedule := [⟨1, .deliver lateAnswer.bytes⟩] }, timeout := 10 }

/-- The one poll takes place at once, and the sleep behind it ends with the limit. -/
theorem whole_answer_timedOut :
    let request : List UInt8 := [0, 1, 0, 0, 0, 6, 1, 0x03, 0, 0, 0, 1]
    let early := (soonAnswered.stream.write request).2.advance 1
    (⟨soonAnswered, oneRegister⟩ : Call (TcpLink Loopback)).frame? = some request ∧
      lateAnswer.transactionId = soonAnswered.nextTransaction ∧ lateAnswer.unitId = oneRegister.slave ∧
      (soonAnswered.stream.write request).2.outstanding = lateAnswer.bytes ∧
      early.now < soonAnswered.stream.now + soonAnswered.timeout ∧ early.Readable ∧
      early.queue.pending = lateAnswer.bytes ∧ (soonAnswered.send oneRegister).1 = .error (.timedOut 10) ∧
      (Error.timedOut 10).kind = .timeout := by
  intro request early
  have sent : (⟨soonAnswered, oneRegister⟩ : Call (TcpLink Loopback)).frame? = some request := by decide +kernel
  refine ⟨sent, rfl, rfl, rfl, by decide +kernel, ⟨rfl, rfl, rfl⟩, rfl, ?_, rfl⟩
  exact Error.eq_error_of_raised (by decide +kernel)

end TcpLink

end Modbus
