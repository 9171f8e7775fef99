import Modbus.Proofs.Frames

/-! What a receiver takes from a stream on which anything can happen between two polls. It reads only what belongs to
the frame that comes next: either that frame to its end, or a part of it, after which it waits or gives up. -/
namespace Modbus

variable {π : Type} {s s' s'' : ByteStream π}

namespace ByteStream

/-- Everything that ever came, whether it has been read or not. -/
def arrived (s : ByteStream π) : List UInt8 := s.consumed ++ s.queue.pending

/-- Whatever is there can be read. -/
structure Readable (s : ByteStream π) : Prop where
  isOpen : s.isOpen = true
  noFailure : s.faults.readFailure = false
  noZeros : s.faults.zeroReads = false

/-- These bytes are read, and nothing else happens. -/
structure Reads (s s' : ByteStream π) (part : List UInt8) : Prop where
  only : ∃ queue readings, s' = { s with queue, readings }
  consumed : s'.consumed = s.consumed ++ part
  pending : s.queue.pending = part ++ s'.queue.pending

/-- Nothing that came is lost, more may come, and nothing is written. -/
structure Continues (s s' : ByteStream π) : Prop where
  writes : s'.writes = s.writes
  arrived : s.arrived <+: s'.arrived

namespace Continues

theorem refl (s : ByteStream π) : Continues s s := ⟨rfl, List.prefix_refl _⟩

theorem trans (first : Continues s s') (second : Continues s' s'') : Continues s s'' :=
  ⟨second.writes.trans first.writes, first.arrived.trans second.arrived⟩

end Continues

namespace Reads

variable {part more : List UInt8}

theorem refl (s : ByteStream π) : Reads s s [] := ⟨⟨_, _, rfl⟩, (List.append_nil _).symm, rfl⟩

theorem trans (first : Reads s s' part) (second : Reads s' s'' more) : Reads s s'' (part ++ more) := by
  obtain ⟨queue, readings, rfl⟩ := first.only
  obtain ⟨queue', readings', rfl⟩ := second.only
  refine ⟨⟨queue', readings', rfl⟩, ?_, ?_⟩
  · rw [second.consumed, first.consumed, List.append_assoc]
  · rw [first.pending, second.pending, List.append_assoc]

theorem readable_iff (reads : Reads s s' part) : s'.Readable ↔ s.Readable := by
  obtain ⟨queue, readings, rfl⟩ := reads.only
  exact ⟨fun r => ⟨r.isOpen, r.noFailure, r.noZeros⟩, fun r => ⟨r.isOpen, r.noFailure, r.noZeros⟩⟩

theorem arrived_eq (reads : Reads s s' part) : s.arrived = s'.arrived := by
  rw [arrived, arrived, reads.consumed, reads.pending, List.append_assoc]

theorem continues (reads : Reads s s' part) : Continues s s' := by
  refine ⟨?_, [], (List.append_nil _).trans reads.arrived_eq⟩
  obtain ⟨queue, readings, rfl⟩ := reads.only
  rfl

end Reads

theorem consumed_cons (s : ByteStream π) (queue : Queue) (entry : Reading) :
    ({ s with queue, readings := entry :: s.readings } : ByteStream π).consumed = s.consumed ++ entry.delivered := by
  simp only [consumed, List.reverse_cons, List.map_append, List.map_cons, List.map_nil, List.flatten_append,
    List.flatten_cons, List.flatten_nil, List.append_nil]

/-- A read that is recorded without result. -/
theorem reads_nothing (s : ByteStream π) (n : Nat) : Reads s { s with readings := ⟨n, []⟩ :: s.readings } [] :=
  ⟨⟨s.queue, _, rfl⟩, consumed_cons s s.queue ⟨n, []⟩, rfl⟩

theorem read_readable (readable : s.Readable) (n : Nat) :
    ∃ s', s.read n = (.bytes (s.queue.pending.take (s.faults.readLimit n)), s') ∧
      Reads s s' (s.queue.pending.take (s.faults.readLimit n)) := by
  refine ⟨_, ?_, ⟨⟨(s.queue.read (s.faults.readLimit n)).2, _, rfl⟩, consumed_cons s _ ⟨n, _⟩, ?_⟩⟩
  · simp [read, readable.isOpen, readable.noFailure, readable.noZeros, Queue.read]
  · rw [Queue.pending_read]
    exact (List.take_append_drop _ _).symm

theorem read_unreadable (unreadable : ¬ s.Readable) (n : Nat) :
    ∃ result s', s.read n = (result, s') ∧ (result = .failed ∨ result = .bytes []) ∧ Reads s s' [] := by
  unfold read
  split
  · exact ⟨_, _, rfl, .inl rfl, s.reads_nothing n⟩
  · split
    · exact ⟨_, _, rfl, .inr rfl, s.reads_nothing n⟩
    · split
      · exact ⟨_, _, rfl, .inl rfl, s.reads_nothing n⟩
      · rename_i noFailure noZero isOpen
        refine absurd ⟨?_, ?_, ?_⟩ unreadable
        · simpa using isOpen
        · simpa using noFailure
        · simpa using fun zeros => noZero (.inl zeros)

/-- Whatever a read delivers is read, and nothing if it fails. -/
theorem read_delivers (s : ByteStream π) (n : Nat) :
    ∃ part, Reads s (s.read n).2 part ∧ ((s.read n).1 = .bytes part ∨ (s.read n).1 = .failed ∧ part = []) := by
  by_cases readable : s.Readable
  · obtain ⟨s', read, reads⟩ := s.read_readable readable n
    rw [read]
    exact ⟨_, reads, .inl rfl⟩
  · obtain ⟨result, s', read, outcome, reads⟩ := s.read_unreadable readable n
    rw [read]
    exact ⟨[], reads, outcome.symm.imp_right fun failed => ⟨failed, rfl⟩⟩

theorem hasData_iff (isOpen : s.isOpen = true) : s.hasData = true ↔ s.queue.pending ≠ [] := by
  rw [hasData, isOpen, Bool.true_and, bne_iff_ne, ← s.queue.length_pending, ne_eq, List.length_eq_zero_iff]

theorem consumed_happen (s : ByteStream π) (o : Occurrence) : (s.happen o).consumed = s.consumed := by
  cases o with
  | deliver bytes => rfl
  | hangUp =>
    simp only [happen, close]
    split <;> rfl

theorem happen_continues (s : ByteStream π) (o : Occurrence) : Continues s (s.happen o) := by
  cases o with
  | deliver bytes => exact ⟨rfl, ⟨bytes, List.append_assoc _ _ _⟩⟩
  | hangUp =>
    simp only [happen, close]
    split
    · exact .refl s
    · exact ⟨rfl, List.prefix_refl _⟩

theorem happenings (s : ByteStream π) (due : List Scheduled) :
    let s' := due.foldl (fun s entry => s.happen entry.occurrence) s
    s'.consumed = s.consumed ∧ Continues s s' := by
  induction due generalizing s with
  | nil => exact ⟨rfl, .refl s⟩
  | cons entry due ih =>
    obtain ⟨consumed, continues⟩ := ih (s.happen entry.occurrence)
    exact ⟨consumed.trans (s.consumed_happen _), (s.happen_continues _).trans continues⟩

theorem consumed_advance (s : ByteStream π) (ms : Nat) : (s.advance ms).consumed = s.consumed := (s.happenings _).1

theorem advance_continues (s : ByteStream π) (ms : Nat) : Continues s (s.advance ms) :=
  have continues := (s.happenings (s.schedule.takeWhile (·.due ≤ s.now + ms))).2
  ⟨continues.writes, continues.arrived⟩

end ByteStream

/-- The bytes that an attempt to read got. -/
def Attempt.bytes : Attempt → List UInt8
  | got first rest => first :: rest
  | idle | failed _ => []

namespace Framing

variable {framing : Framing} {frame buffer tail : List UInt8}

/-- What one attempt to read up to `count` bytes can lead to. -/
inductive Attempted (s s' : ByteStream π) (count : Nat) : Attempt → Prop where
  | got {b : UInt8} {bs : List UInt8} (readable : s.Readable) (size : (b :: bs).length ≤ count)
      (reads : s.Reads s' (b :: bs)) : Attempted s s' count (.got b bs)
  | idle (none : s.Readable → s.queue.pending = []) (reads : s.Reads s' []) : Attempted s s' count .idle
  | failed {e : Error} (unreadable : ¬ s.Readable) (kind : e.kind = .connection) (reads : s.Reads s' []) :
      Attempted s s' count (.failed e)

theorem attempted_readable (framing : Framing) (readable : s.Readable) {count : Nat} (pos : 0 < count) :
    Attempted s (framing.attempt s count).2 count (framing.attempt s count).1 := by
  have limit : 0 < s.faults.readLimit count ∧ s.faults.readLimit count ≤ count := by
    unfold ByteStream.Faults.readLimit
    split <;> omega
  obtain ⟨s', read, reads⟩ := s.read_readable readable count
  cases part : s.queue.pending.take (s.faults.readLimit count) with
  | nil =>
    have none : s.queue.pending = [] := (List.take_eq_nil_iff.mp part).resolve_left (Nat.ne_of_gt limit.1)
    rw [part] at read reads
    cases framing with
    | mbap =>
      have data : ¬ s.hasData = true := fun data => (ByteStream.hasData_iff readable.isOpen).mp data none
      simp only [attempt, if_neg data, readable.isOpen, if_true]
      exact .idle (fun _ => none) (.refl s)
    | rtu =>
      have isOpen : s'.isOpen = true := (reads.readable_iff.mpr readable).isOpen
      simp only [attempt, read, isOpen, if_true]
      exact .idle (fun _ => none) reads
  | cons b bs =>
    have size : (b :: bs).length ≤ count := part ▸ Nat.le_trans (List.length_take_le _ _) limit.2
    rw [part] at read reads
    cases framing with
    | mbap =>
      have data : s.hasData = true := (ByteStream.hasData_iff readable.isOpen).mpr fun none => by
        rw [none, List.take_nil] at part
        cases part
      simp only [attempt, data, if_true, read]
      exact .got readable size reads
    | rtu =>
      simp only [attempt, read]
      exact .got readable size reads

theorem attempted_unreadable (framing : Framing) (unreadable : ¬ s.Readable) (count : Nat) :
    Attempted s (framing.attempt s count).2 count (framing.attempt s count).1 := by
  have idle {s' : ByteStream π} (reads : s.Reads s' []) : Attempted s s' count .idle :=
    .idle (fun readable => absurd readable unreadable) reads
  obtain ⟨result, s', read, outcome, reads⟩ := s.read_unreadable unreadable count
  cases framing with
  | mbap =>
    simp only [attempt, read]
    split
    · rcases outcome with rfl | rfl
      · exact .failed unreadable rfl reads
      · exact .failed unreadable rfl reads
    · split
      · exact idle (.refl s)
      · exact .failed unreadable rfl (.refl s)
  | rtu =>
    simp only [attempt, read]
    rcases outcome with rfl | rfl
    · exact .failed unreadable rfl reads
    · dsimp only
      split
      · exact idle reads
      · exact .failed unreadable rfl reads

theorem attempted (framing : Framing) (s : ByteStream π) {count : Nat} (pos : 0 < count) :
    Attempted s (framing.attempt s count).2 count (framing.attempt s count).1 := by
  by_cases readable : s.Readable
  · exact framing.attempted_readable readable pos
  · exact framing.attempted_unreadable readable count

/-- Of a stream of any kind an attempt takes exactly what it got. -/
theorem attempt_delivers (framing : Framing) (s : ByteStream π) (count : Nat) :
    s.Reads (framing.attempt s count).2 (framing.attempt s count).1.bytes := by
  obtain ⟨part, reads, outcome⟩ := s.read_delivers count
  generalize read : s.read count = result at reads outcome
  obtain ⟨result, s'⟩ := result
  dsimp only at reads outcome
  cases framing with
  | mbap =>
    simp only [attempt, read]
    split
    · rcases outcome with rfl | ⟨rfl, rfl⟩
      · cases part with
        | nil => exact reads
        | cons b bs => exact reads
      · exact reads
    · split
      · exact .refl s
      · exact .refl s
  | rtu =>
    simp only [attempt, read]
    rcases outcome with rfl | ⟨rfl, rfl⟩
    · cases part with
      | nil =>
        dsimp only
        split
        · exact reads
        · exact reads
      | cons b bs => exact reads
    · exact reads

/-- What is held when gathering ends: a complete frame, and otherwise none yet. -/
inductive Gathers (framing : Framing) (held : List UInt8) : Gathered → Prop where
  | frame (complete : framing.need held = .complete) : Gathers framing held (.frame held)
  | waiting (short : framing.need held ≠ .complete) : Gathers framing held (.waiting held)
  | failed {e : Error} (short : framing.need held ≠ .complete) : Gathers framing held (.failed e)

/-- Whatever the bytes are, gathering does nothing but read, and ends with what was read. -/
theorem gather_delivers (framing : Framing) (s : ByteStream π) (buffer : List UInt8) :
    ∃ part, s.Reads (framing.gather s buffer).2 part ∧
      Gathers framing (buffer ++ part) (framing.gather s buffer).1 := by
  fun_induction framing.gather s buffer with
  | case1 s buffer complete =>
    refine ⟨[], .refl s, ?_⟩
    rw [List.append_nil]
    exact .frame complete
  | case2 s buffer reason rejected =>
    refine ⟨[], .refl s, .failed ?_⟩
    rw [List.append_nil, rejected]
    nofun
  | case3 s buffer count asks s' idle =>
    have reads := framing.attempt_delivers s count
    rw [idle] at reads
    refine ⟨[], reads, ?_⟩
    rw [List.append_nil]
    exact .waiting (by rw [asks]; nofun)
  | case4 s buffer count asks e s' failed =>
    have reads := framing.attempt_delivers s count
    rw [failed] at reads
    refine ⟨[], reads, .failed ?_⟩
    rw [List.append_nil, asks]
    nofun
  | case5 s buffer count asks b bs s' got ih =>
    have reads := framing.attempt_delivers s count
    rw [got] at reads
    obtain ⟨rest, later, gathers⟩ := ih
    refine ⟨b :: bs ++ rest, reads.trans later, ?_⟩
    rw [← List.append_assoc]
    exact gathers

theorem gather_reads (framing : Framing) (s : ByteStream π) (buffer : List UInt8) :
    ∃ part, s.Reads (framing.gather s buffer).2 part :=
  (framing.gather_delivers s buffer).imp fun _ => And.left

/-- What gathering leads to if the bytes that are there begin with the rest of the frame or are a part of it. -/
inductive Takes (frame buffer : List UInt8) (s s' : ByteStream π) : Gathered → Prop where
  | whole {part : List UInt8} (reads : s.Reads s' part) (ends : buffer ++ part = frame) :
      Takes frame buffer s s' (.frame frame)
  | part {part : List UInt8} (reads : s.Reads s' part) (inside : buffer ++ part <+: frame)
      (short : buffer ++ part ≠ frame) (none : s.Readable → s'.queue.pending = []) (some : ¬ s.Readable → part = []) :
      Takes frame buffer s s' (.waiting (buffer ++ part))
  | failed {e : Error} (unreadable : ¬ s.Readable) (kind : e.kind = .connection) (reads : s.Reads s' []) :
      Takes frame buffer s s' (.failed e)

theorem gather_takes (delimits : framing.Delimits frame) (begun : buffer <+: frame)
    (fits : buffer ++ s.queue.pending <+: frame ++ tail) :
    Takes frame buffer s (framing.gather s buffer).2 (framing.gather s buffer).1 := by
  induction left : frame.length - buffer.length using Nat.strongRecOn generalizing s buffer with
  | ind left ih =>
    subst left
    unfold gather
    by_cases whole : buffer = frame
    · subst whole
      rw [delimits.complete]
      exact .whole (.refl s) (List.append_nil _)
    · have inside : buffer.length < frame.length :=
        Nat.lt_of_le_of_ne begun.length_le fun same => whole (begun.eq_of_length same)
      obtain ⟨count, asks, pos, within⟩ := delimits.more buffer.length inside
      rw [← List.prefix_iff_eq_take.mp begun] at asks
      rw [asks]
      dsimp only
      have attempted := framing.attempted s pos
      split
      case h_1 s' idle =>
        rw [idle] at attempted
        cases attempted with
        | idle none reads =>
          have takes : Takes frame buffer s s' (.waiting (buffer ++ [])) :=
            .part reads (by rwa [List.append_nil]) (by rwa [List.append_nil])
              (fun readable => by rw [← none readable, reads.pending, List.nil_append]) fun _ => rfl
          rwa [List.append_nil] at takes
      case h_2 reason s' failed =>
        rw [failed] at attempted
        cases attempted with
        | failed unreadable kind reads => exact .failed unreadable kind reads
      case h_3 b bs s' got =>
        rw [got] at attempted
        cases attempted with
        | got readable size reads =>
          have longer : buffer ++ b :: bs ++ s'.queue.pending <+: frame ++ tail := by
            rw [List.append_assoc, ← reads.pending]
            exact fits
          have still : buffer ++ b :: bs <+: frame := by
            refine List.prefix_of_prefix_length_le ((List.prefix_append _ _).trans longer) (List.prefix_append _ _) ?_
            rw [List.length_append]
            omega
          have rest := ih (frame.length - (buffer ++ b :: bs).length)
            (by rw [List.length_append, List.length_cons]; omega) still longer rfl
          generalize framing.gather s' (buffer ++ b :: bs) = result at rest
          obtain ⟨gathered, s''⟩ := result
          cases rest with
          | whole later ends => exact .whole (reads.trans later) (by rw [← List.append_assoc, ends])
          | part later inside short none some =>
            rw [List.append_assoc] at inside short ⊢
            exact .part (reads.trans later) inside short (fun _ => none (reads.readable_iff.mpr readable))
              fun unreadable => absurd readable unreadable
          | failed unreadable kind later => exact absurd (reads.readable_iff.mpr readable) unreadable

/-- Of a frame that is there, nothing is left out, and nothing behind it is touched. -/
theorem gather_frame (delimits : framing.Delimits frame) (readable : s.Readable)
    (there : s.queue.pending = frame ++ tail) :
    (framing.gather s []).1 = .frame frame ∧ s.Reads (framing.gather s []).2 frame := by
  have takes := gather_takes (s := s) delimits List.nil_prefix ⟨[], (List.append_nil _).trans there⟩
  generalize framing.gather s [] = result at takes ⊢
  obtain ⟨gathered, s'⟩ := result
  cases takes with
  | @whole part reads ends =>
    obtain rfl : part = frame := ends
    exact ⟨rfl, reads⟩
  | @part part reads inside short none some =>
    have all : part = frame ++ tail := by
      rw [← there, reads.pending, none readable, List.append_nil]
    have size := inside.length_le
    rw [List.nil_append, all, List.length_append] at size
    have nothing : tail = [] := List.eq_nil_of_length_eq_zero (by omega)
    rw [nothing, List.append_nil] at all
    exact absurd all short
  | failed unreadable kind reads => exact absurd readable unreadable

/-- From a stream that gives nothing, no frame is begun. -/
theorem gather_nothing (framing : Framing) (nothing : s.Readable → s.queue.pending = []) :
    s.Reads (framing.gather s []).2 [] ∧
      ((framing.gather s []).1 = .waiting [] ∨ ∃ e, (framing.gather s []).1 = .failed e ∧ e.kind = .connection) := by
  obtain ⟨count, asks, pos⟩ : ∃ count, framing.need [] = .more count ∧ 0 < count := by
    cases framing with
    | mbap => exact ⟨7, rfl, by decide⟩
    | rtu => exact ⟨3, rfl, by decide⟩
  have attempted := framing.attempted s pos
  unfold gather
  rw [asks]
  dsimp only
  split
  case h_1 s' idle =>
    rw [idle] at attempted
    cases attempted with
    | idle none reads => exact ⟨reads, .inl rfl⟩
  case h_2 e s' failed =>
    rw [failed] at attempted
    cases attempted with
    | failed unreadable kind reads => exact ⟨reads, .inr ⟨e, rfl, kind⟩⟩
  case h_3 b bs s' got =>
    rw [got] at attempted
    cases attempted with
    | got readable size reads =>
      exact absurd (reads.pending.symm.trans (nothing readable)) (List.cons_ne_nil _ _)

end Framing

end Modbus
