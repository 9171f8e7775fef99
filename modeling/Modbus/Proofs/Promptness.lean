import Modbus.Proofs.Delivery

/-! A frame that is there in time is received. What has come by a poll does not depend on what was read before, so a
frame that has come by a poll within the time limit is read whole, in however many pieces it came. -/
namespace Modbus

variable {π : Type} {s s' : ByteStream π} {part : List UInt8}

namespace ByteStream

/-- Reading and what happens on the stream do not disturb each other. -/
theorem Reads.happen (reads : Reads s s' part) (o : Occurrence) : Reads (s.happen o) (s'.happen o) part := by
  have consumed : (s'.happen o).consumed = (s.happen o).consumed ++ part := by
    rw [consumed_happen, consumed_happen, reads.consumed]
  have pending := reads.pending
  obtain ⟨queue, readings, rfl⟩ := reads.only
  cases o with
  | deliver bytes =>
    refine ⟨⟨queue.append bytes, readings, rfl⟩, consumed, ?_⟩
    change (s.queue.append bytes).pending = part ++ (queue.append bytes).pending
    rw [Queue.pending_append, Queue.pending_append, pending, List.append_assoc]
  | hangUp =>
    simp only [ByteStream.happen, close]
    split
    · exact reads
    · exact ⟨⟨queue, readings, rfl⟩, reads.consumed, pending⟩

theorem Reads.timed (reads : Reads s s' part) (now : Nat) (schedule : List Scheduled) :
    Reads { s with now, schedule } { s' with now, schedule } part := by
  have consumed := reads.consumed
  have pending := reads.pending
  obtain ⟨queue, readings, rfl⟩ := reads.only
  exact ⟨⟨queue, readings, rfl⟩, consumed, pending⟩

theorem Reads.advance (reads : Reads s s' part) (ms : Nat) : Reads (s.advance ms) (s'.advance ms) part := by
  have happenings (due : List Scheduled) {s s' : ByteStream π} (reads : Reads s s' part) :
      Reads (due.foldl (fun s entry => s.happen entry.occurrence) s)
        (due.foldl (fun s entry => s.happen entry.occurrence) s') part := by
    induction due generalizing s s' with
    | nil => exact reads
    | cons entry rest ih => exact ih (reads.happen entry.occurrence)
  have clock : s'.now = s.now ∧ s'.schedule = s.schedule := by
    obtain ⟨queue, readings, rfl⟩ := reads.only
    exact ⟨rfl, rfl⟩
  unfold ByteStream.advance
  rw [clock.1, clock.2]
  exact (happenings _ reads).timed _ _

theorem Readable.of_happen {o : Occurrence} (readable : (s.happen o).Readable) : s.Readable := by
  cases o with
  | deliver bytes => exact ⟨readable.isOpen, readable.noFailure, readable.noZeros⟩
  | hangUp =>
    simp only [ByteStream.happen, close] at readable
    split at readable
    · exact readable
    · exact absurd readable.isOpen Bool.false_ne_true

theorem Readable.of_advance {ms : Nat} (readable : (s.advance ms).Readable) : s.Readable := by
  have back (due : List Scheduled) {s : ByteStream π}
      (readable : (due.foldl (fun s entry => s.happen entry.occurrence) s).Readable) : s.Readable := by
    induction due generalizing s with
    | nil => exact readable
    | cons entry rest ih => exact (ih readable).of_happen
  exact back (s.schedule.takeWhile (·.due ≤ s.now + ms))
    ⟨readable.isOpen, readable.noFailure, readable.noZeros⟩

end ByteStream

namespace Framing

open ByteStream (Readable Reads)

/-- The stream at a poll, if nothing is read until then. -/
def atPoll (framing : Framing) : Nat → ByteStream π → ByteStream π
  | 0, s => s
  | p + 1, s => framing.atPoll p (s.advance framing.pollInterval)

variable {framing : Framing} {frame buffer base tail : List UInt8}

theorem atPoll_continues (framing : Framing) (p : Nat) (s : ByteStream π) : s.Continues (framing.atPoll p s) := by
  induction p generalizing s with
  | zero => exact .refl s
  | succ p ih => exact (s.advance_continues _).trans (ih _)

theorem reads_atPoll (framing : Framing) (p : Nat) (reads : Reads s s' part) :
    Reads (framing.atPoll p s) (framing.atPoll p s') part := by
  induction p generalizing s s' with
  | zero => exact reads
  | succ p ih => exact ih (reads.advance _)

theorem readable_of_atPoll {p : Nat} (readable : (framing.atPoll p s).Readable) : s.Readable := by
  induction p generalizing s with
  | zero => exact readable
  | succ p ih => exact (ih readable).of_advance

/-- The wait that has begun a frame ends with it if all of it is there at a poll. -/
theorem await_of_arrived (delimits : framing.Delimits frame) (timeout : Nat) {p polls : Nat} (early : p < polls)
    (begun : buffer <+: frame) (short : buffer ≠ frame) (consumed : s.consumed = base ++ buffer)
    (readable : (framing.atPoll p s).Readable) (arrived : (framing.atPoll p s).arrived = base ++ (frame ++ tail)) :
    (framing.await timeout s buffer polls).1 = .ok frame ∧
      (framing.await timeout s buffer polls).2.consumed = base ++ frame := by
  induction polls generalizing s buffer p with
  | zero => nomatch early
  | succ polls ih =>
    have fits : buffer ++ s.queue.pending <+: frame ++ tail := by
      have all := (framing.atPoll_continues p s).arrived
      rw [arrived, ByteStream.arrived, consumed, List.append_assoc] at all
      exact (List.prefix_append_right_inj base).mp all
    have takes := gather_takes delimits begun fits
    rw [await]
    generalize framing.gather s buffer = result at takes ⊢
    obtain ⟨gathered, s'⟩ := result
    cases takes with
    | whole reads ends => exact ⟨rfl, by rw [reads.consumed, consumed, List.append_assoc, ends]⟩
    | @part part reads inside short none some =>
      cases p with
      | zero =>
        -- All of the frame is there, so a part that is not all of it cannot be all that is there.
        have all : buffer ++ part = frame ++ tail := by
          have there : s.arrived = base ++ (frame ++ tail) := arrived
          rw [ByteStream.arrived, consumed, reads.pending, none readable, List.append_nil, List.append_assoc] at there
          exact List.append_cancel_left there
        have size := inside.length_le
        rw [all, List.length_append] at size
        obtain rfl : tail = [] := List.eq_nil_of_length_eq_zero (by omega)
        exact absurd (all.trans (List.append_nil _)) short
      | succ p =>
        have later := framing.reads_atPoll p (reads.advance framing.pollInterval)
        refine ih (Nat.lt_of_succ_lt_succ early) inside short ?_ (later.readable_iff.mpr readable) ?_
        · rw [ByteStream.consumed_advance, reads.consumed, consumed, List.append_assoc]
        · rw [← arrived]
          exact later.arrived_eq.symm
    | failed unreadable kind reads => exact absurd (readable_of_atPoll readable) unreadable

/-! Which polls take place. -/

theorem lt_polls_iff (framing : Framing) {timeout : Nat} (limited : 0 < timeout) (s : ByteStream π) (p : Nat) :
    p < framing.polls timeout s ↔ p * framing.pollInterval < timeout := by
  unfold polls
  rw [if_neg (Nat.ne_of_gt limited)]
  cases framing with
  | mbap =>
    change p < (timeout + 10 - 1) / 10 ↔ p * 10 < timeout
    omega
  | rtu =>
    change p < (timeout + 1 - 1) / 1 ↔ p * 1 < timeout
    omega

theorem atPoll_add (framing : Framing) (p q : Nat) (s : ByteStream π) :
    framing.atPoll (p + q) s = framing.atPoll q (framing.atPoll p s) := by
  induction p generalizing s with
  | zero => rw [Nat.zero_add, atPoll]
  | succ p ih => rw [Nat.succ_add, atPoll, atPoll, ih]

theorem arrived_atPoll_of_rest (framing : Framing) (rest : s.schedule = []) (p : Nat) :
    (framing.atPoll p s).arrived = s.arrived := by
  induction p generalizing s with
  | zero => rfl
  | succ p ih =>
    have still : s.advance framing.pollInterval = { s with now := s.now + framing.pollInterval } := by
      simp [ByteStream.advance, rest]
    rw [atPoll, still]
    exact ih (s := { s with now := s.now + framing.pollInterval }) rest

/-- All that is due by a poll has happened then. -/
theorem schedule_atPoll (framing : Framing) (p : Nat)
    (due : ∀ entry ∈ s.schedule, entry.due ≤ s.now + (p + 1) * framing.pollInterval) :
    (framing.atPoll (p + 1) s).schedule = [] := by
  induction p generalizing s with
  | zero =>
    rw [Nat.zero_add, Nat.one_mul] at due
    refine Decidable.not_not.mp fun left => ?_
    have late := List.head_dropWhile_not (fun entry : ByteStream.Scheduled =>
      decide (entry.due ≤ s.now + framing.pollInterval)) left
    exact of_decide_eq_false late (due _ ((List.dropWhile_sublist _).subset (List.head_mem left)))
  | succ p ih =>
    refine ih ?_
    intro entry member
    have soon := due entry ((List.dropWhile_sublist _).subset member)
    change entry.due ≤ s.now + framing.pollInterval + (p + 1) * framing.pollInterval
    rw [Nat.succ_mul] at soon
    omega

end Framing

namespace ByteStream

/-- What is scheduled stands in order of time. -/
def Orderly (s : ByteStream π) : Prop := s.schedule.Pairwise fun a b => a.due ≤ b.due

instance : Decidable s.Orderly := inferInstanceAs (Decidable (s.schedule.Pairwise fun a b => a.due ≤ b.due))

theorem Orderly.due_le {last : Scheduled} (orderly : s.Orderly) (found : s.schedule.getLast? = some last) :
    ∀ entry ∈ s.schedule, entry.due ≤ last.due := by
  obtain ⟨before, whole⟩ := List.getLast?_eq_some_iff.mp found
  rw [Orderly, whole] at orderly
  rw [whole]
  refine List.forall_mem_append.mpr ⟨?_, List.forall_mem_singleton.mpr (Nat.le_refl _)⟩
  intro entry member
  exact (List.pairwise_append.mp orderly).2.2 entry member last List.mem_cons_self

end ByteStream

namespace Framing

variable {framing : Framing} {frame tail : List UInt8}

/-- Without a time limit some poll sees all that any poll would have seen. -/
theorem exists_poll_of_no_limit (framing : Framing) (orderly : s.Orderly) (p : Nat)
    (readable : (framing.atPoll p s).Readable) :
    ∃ q < framing.polls 0 s, (framing.atPoll q s).Readable ∧
      (framing.atPoll q s).arrived = (framing.atPoll p s).arrived := by
  obtain ⟨q, last, rest⟩ : ∃ q, framing.polls 0 s = q + 1 ∧ (framing.atPoll q s).schedule = [] := by
    unfold polls ByteStream.lastDue?
    rw [if_pos rfl]
    cases found : s.schedule.getLast? with
    | none => exact ⟨0, rfl, List.getLast?_eq_none_iff.mp found⟩
    | some last =>
      refine ⟨_, rfl, ?_⟩
      obtain ⟨q, count⟩ : ∃ q, max 1 ((last.due - s.now + framing.pollInterval - 1) / framing.pollInterval) = q + 1 :=
        Nat.exists_eq_succ_of_ne_zero (by omega)
      dsimp only
      rw [count]
      refine framing.schedule_atPoll q ?_
      intro entry member
      refine Nat.le_trans (orderly.due_le found entry member) ?_
      cases framing with
      | mbap =>
        change max 1 ((last.due - s.now + 10 - 1) / 10) = q + 1 at count
        change last.due ≤ s.now + (q + 1) * 10
        omega
      | rtu =>
        change max 1 ((last.due - s.now + 1 - 1) / 1) = q + 1 at count
        change last.due ≤ s.now + (q + 1) * 1
        omega
  rw [last]
  by_cases early : p ≤ q
  · exact ⟨p, Nat.lt_succ_of_le early, readable, rfl⟩
  · obtain ⟨d, rfl⟩ := Nat.exists_eq_add_of_lt (Nat.lt_of_not_le early)
    rw [Nat.add_assoc, atPoll_add] at readable ⊢
    exact ⟨q, Nat.lt_succ_self q, readable_of_atPoll readable, (framing.arrived_atPoll_of_rest rest _).symm⟩

/-- If a frame is there at a poll before the time is over, it is received, and nothing behind it is touched. -/
theorem receive_of_arrived (delimits : framing.Delimits frame) (orderly : s.Orderly) {timeout p : Nat}
    (early : timeout = 0 ∨ p * framing.pollInterval < timeout) (readable : (framing.atPoll p s).Readable)
    (arrived : (framing.atPoll p s).arrived = s.consumed ++ (frame ++ tail)) :
    (framing.receive timeout s).1 = .ok frame ∧ (framing.receive timeout s).2.consumed = s.consumed ++ frame := by
  obtain ⟨q, takes, there, same⟩ : ∃ q < framing.polls timeout s, (framing.atPoll q s).Readable ∧
      (framing.atPoll q s).arrived = (framing.atPoll p s).arrived := by
    rcases Nat.eq_zero_or_pos timeout with rfl | limited
    · exact framing.exists_poll_of_no_limit orderly p readable
    · exact ⟨p, (framing.lt_polls_iff limited s p).mpr (early.resolve_left (Nat.ne_of_gt limited)), readable, rfl⟩
  exact await_of_arrived delimits timeout takes List.nil_prefix delimits.ne_nil.symm (List.append_nil _).symm there
    (same.trans arrived)

end Framing

end Modbus
