import Modbus.Proofs.Promptness

/-! The loop of a receiver, pass by pass: it looks at the clock before each attempt to read, and sleeps when nothing has
come. With a time limit the loop ends, as `receive` says, since each pass that does not end it brings bytes that the frame
still lacks or takes time off the limit. -/
namespace Modbus

variable {π : Type} {s s' s'' : ByteStream π}

namespace ByteStream

/-- What these reads delivered, in order; of the list, the newest entry stands first. -/
def delivered (readings : List Reading) : List UInt8 := (readings.reverse.map Reading.delivered).flatten

theorem delivered_append (newer older : List Reading) : delivered (newer ++ older) = delivered older ++ delivered newer := by
  simp only [delivered, List.reverse_append, List.map_append, List.flatten_append]

theorem readings_read (s : ByteStream π) (n : Nat) :
    ∃ part, (s.read n).2.readings = ⟨n, part⟩ :: s.readings := by
  unfold read
  split
  · exact ⟨_, rfl⟩
  · split
    · exact ⟨_, rfl⟩
    · split
      · exact ⟨_, rfl⟩
      · exact ⟨_, rfl⟩

theorem Reads.now {part : List UInt8} (reads : s.Reads s' part) : s'.now = s.now := by
  obtain ⟨queue, readings, rfl⟩ := reads.only
  rfl

theorem readings_happen (s : ByteStream π) (o : Occurrence) : (s.happen o).readings = s.readings := by
  cases o with
  | deliver bytes => rfl
  | hangUp =>
    simp only [happen, close]
    split <;> rfl

theorem readings_advance (s : ByteStream π) (ms : Nat) : (s.advance ms).readings = s.readings := by
  have happenings (due : List Scheduled) (s : ByteStream π) :
      (due.foldl (fun s entry => s.happen entry.occurrence) s).readings = s.readings := by
    induction due generalizing s with
    | nil => rfl
    | cons entry rest ih => exact (ih _).trans (s.readings_happen _)
  exact happenings _ s

end ByteStream

/-- What one pass of a receiver's loop comes to. -/
inductive Passed where
  | ended (outcome : Except Error (List UInt8))
  | slept
  | got (bytes : List UInt8)

namespace Framing

variable {framing : Framing} {timeout start count : Nat} {buffer held : List UInt8}

/-- The size of the largest frame. -/
def largest : Framing → Nat
  | mbap => 260
  | rtu => 256

/-- As long as something is missing, it is at least a byte, and never more than the largest frame has. -/
theorem need_more (asks : framing.need buffer = .more count) : 0 < count ∧ buffer.length + count ≤ framing.largest := by
  cases framing with
  | mbap =>
    change 0 < count ∧ buffer.length + count ≤ 260
    unfold need at asks
    dsimp only at asks
    split at asks
    case h_1 none =>
      have short : buffer.length < 7 := Mbap.header?_eq_none_iff.mp none
      obtain rfl : 7 - buffer.length = count := Need.more.inj asks
      omega
    case h_2 h header =>
      split at asks
      · nomatch asks
      case isFalse accepted =>
        have valid : h.lengthValid = true := by simpa using accepted
        have most := (Mbap.Header.lengthValid_iff.mp valid).2
        split at asks
        · nomatch asks
        case isFalse short =>
          obtain rfl : h.frameSize - buffer.length = count := Need.more.inj asks
          unfold Mbap.Header.frameSize at short ⊢
          omega
  | rtu =>
    change 0 < count ∧ buffer.length + count ≤ 256
    unfold need at asks
    dsimp only at asks
    cases tells : Rtu.expectedSize? buffer with
    | some size =>
      rw [tells] at asks
      dsimp only at asks
      split at asks
      · nomatch asks
      case isFalse short =>
        split at asks
        · nomatch asks
        case isFalse most =>
          obtain rfl : size - buffer.length = count := Need.more.inj asks
          unfold Rtu.maxFrameSize at most
          omega
    | none =>
      rw [tells] at asks
      match buffer with
      | [] | [_] | [_, _] =>
        cases asks
        simp
      | _ :: _ :: _ :: _ => nomatch asks

/-- One pass of the loop of a receiver that began to wait at `start`. -/
def pass (framing : Framing) (timeout start : Nat) (s : ByteStream π) (buffer : List UInt8) : Passed × ByteStream π :=
  match framing.need buffer with
  | .complete => (.ended (.ok buffer), s)
  | .reject reason => (.ended (.error reason), s)
  | .more count =>
    if timeout ≠ 0 ∧ timeout ≤ s.now - start then (.ended (.error (.timedOut timeout)), s)
    else
      match framing.attempt s count with
      | (.idle, s) => (.slept, s.advance framing.pollInterval)
      | (.failed reason, s) => (.ended (.error reason), s)
      | (.got b bs, s) => (.got (b :: bs), s)

/-- Passes one after another, none of which ends the loop; so many of them sleep. -/
inductive Passes (framing : Framing) (timeout start : Nat) :
    ByteStream π → List UInt8 → Nat → ByteStream π → List UInt8 → Prop where
  | none {s : ByteStream π} {buffer : List UInt8} : Passes framing timeout start s buffer 0 s buffer
  | slept {s s' s'' : ByteStream π} {buffer held : List UInt8} {sleeps : Nat}
      (first : framing.pass timeout start s buffer = (.slept, s'))
      (rest : Passes framing timeout start s' buffer sleeps s'' held) :
      Passes framing timeout start s buffer (sleeps + 1) s'' held
  | got {s s' s'' : ByteStream π} {buffer bytes held : List UInt8} {sleeps : Nat}
      (first : framing.pass timeout start s buffer = (.got bytes, s'))
      (rest : Passes framing timeout start s' (buffer ++ bytes) sleeps s'' held) :
      Passes framing timeout start s buffer sleeps s'' held

/-- The loop that begins on this stream ends with this outcome, after so many sleeps. -/
def Ends (framing : Framing) (timeout : Nat) (s : ByteStream π) (sleeps : Nat) (outcome : Except Error (List UInt8))
    (s' : ByteStream π) : Prop :=
  ∃ there held, framing.Passes timeout s.now s [] sleeps there held ∧
    framing.pass timeout s.now there held = (.ended outcome, s')

theorem Passes.trans {buffer' buffer'' : List UInt8} {sleeps more : Nat}
    (first : framing.Passes timeout start s buffer sleeps s' buffer')
    (second : framing.Passes timeout start s' buffer' more s'' buffer'') :
    framing.Passes timeout start s buffer (sleeps + more) s'' buffer'' := by
  induction first with
  | none => rwa [Nat.zero_add]
  | @slept s s' s'' buffer held sleeps first rest ih =>
    rw [Nat.succ_add]
    exact .slept first (ih second)
  | got first rest ih => exact .got first (ih second)

/-- Each pass is determined, so the loop has one end at most. -/
theorem Passes.unique {held' : List UInt8} {sleeps more : Nat} {outcome other : Except Error (List UInt8)}
    {there there' last last' : ByteStream π}
    (passes : framing.Passes timeout start s buffer sleeps there held)
    (ended : framing.pass timeout start there held = (.ended outcome, last))
    (passes' : framing.Passes timeout start s buffer more there' held')
    (ended' : framing.pass timeout start there' held' = (.ended other, last')) :
    sleeps = more ∧ outcome = other ∧ last = last' := by
  induction passes generalizing more with
  | none =>
    cases passes' with
    | none =>
      rw [ended] at ended'
      cases ended'
      exact ⟨rfl, rfl, rfl⟩
    | slept first rest =>
      rw [ended] at first
      nomatch first
    | got first rest =>
      rw [ended] at first
      nomatch first
  | slept first rest ih =>
    cases passes' with
    | none =>
      rw [ended'] at first
      nomatch first
    | slept first' rest' =>
      rw [first] at first'
      cases first'
      obtain ⟨rfl, same⟩ := ih ended rest'
      exact ⟨rfl, same⟩
    | got first' rest' =>
      rw [first] at first'
      nomatch first'
  | got first rest ih =>
    cases passes' with
    | none =>
      rw [ended'] at first
      nomatch first
    | slept first' rest' =>
      rw [first] at first'
      nomatch first'
    | got first' rest' =>
      rw [first] at first'
      cases first'
      exact ih ended rest'

/-! What passes cost. -/

/-- What happened between two moments of a wait: so many sleeps, and these reads, of which at most so many brought
nothing. -/
structure Spends (framing : Framing) (s s' : ByteStream π) (sleeps vain : Nat) (readings : List ByteStream.Reading) :
    Prop where
  clock : s'.now = s.now + sleeps * framing.pollInterval
  recorded : s'.readings = readings ++ s.readings
  asked : ∀ reading ∈ readings, 1 ≤ reading.asked ∧ reading.asked ≤ framing.largest
  few : readings.length ≤ (ByteStream.delivered readings).length + vain

theorem Spends.nothing (framing : Framing) (s : ByteStream π) (vain : Nat) : framing.Spends s s 0 vain [] :=
  ⟨by rw [Nat.zero_mul, Nat.add_zero], rfl, nofun, Nat.zero_le _⟩

theorem Spends.trans {sleeps vain more moreVain : Nat} {readings later : List ByteStream.Reading}
    (first : framing.Spends s s' sleeps vain readings) (second : framing.Spends s' s'' more moreVain later) :
    framing.Spends s s'' (sleeps + more) (vain + moreVain) (later ++ readings) := by
  have few := first.few
  have fewer := second.few
  refine ⟨?_, ?_, ?_, ?_⟩
  · rw [second.clock, first.clock, Nat.add_mul, Nat.add_assoc]
  · rw [second.recorded, first.recorded, List.append_assoc]
  · intro reading member
    exact (List.mem_append.mp member).elim (second.asked reading) (first.asked reading)
  · rw [ByteStream.delivered_append, List.length_append, List.length_append]
    omega

theorem Spends.slept (framing : Framing) (s : ByteStream π) :
    framing.Spends s (s.advance framing.pollInterval) 1 0 [] :=
  ⟨by rw [Nat.one_mul]; rfl, s.readings_advance _, nofun, Nat.zero_le _⟩

theorem attempt_recorded (framing : Framing) (s : ByteStream π) (count : Nat) :
    ∃ readings, (framing.attempt s count).2.readings = readings ++ s.readings ∧ readings.length ≤ 1 ∧
      ∀ reading ∈ readings, reading.asked = count := by
  obtain ⟨part, recorded⟩ := s.readings_read count
  generalize read : s.read count = result at recorded
  obtain ⟨result, s'⟩ := result
  have once : ∃ readings, s'.readings = readings ++ s.readings ∧ readings.length ≤ 1 ∧
      ∀ reading ∈ readings, reading.asked = count :=
    ⟨[⟨count, part⟩], recorded, Nat.le_refl 1, List.forall_mem_singleton.mpr rfl⟩
  have never : ∃ readings, s.readings = readings ++ s.readings ∧ readings.length ≤ 1 ∧
      ∀ reading ∈ readings, reading.asked = count := ⟨[], rfl, Nat.zero_le 1, nofun⟩
  cases framing with
  | mbap =>
    simp only [attempt, read]
    split
    · split
      · next same => exact (Prod.mk.inj same).2 ▸ once
      · next same => exact (Prod.mk.inj same).2 ▸ once
    · split
      · exact never
      · exact never
  | rtu =>
    simp only [attempt, read]
    split
    · next same => exact (Prod.mk.inj same).2 ▸ once
    · next same =>
      split
      · exact (Prod.mk.inj same).2 ▸ once
      · exact (Prod.mk.inj same).2 ▸ once
    · next same => exact (Prod.mk.inj same).2 ▸ once

theorem Spends.attempt (asks : framing.need buffer = .more count) (vain : Nat)
    (some : 1 ≤ (framing.attempt s count).1.bytes.length + vain) :
    ∃ readings, framing.Spends s (framing.attempt s count).2 0 vain readings ∧
      ByteStream.delivered readings = (framing.attempt s count).1.bytes := by
  have reads := framing.attempt_delivers s count
  obtain ⟨readings, recorded, once, asked⟩ := framing.attempt_recorded s count
  have same : ByteStream.delivered readings = (framing.attempt s count).1.bytes := by
    have consumed : ByteStream.delivered (framing.attempt s count).2.readings =
      ByteStream.delivered s.readings ++ (framing.attempt s count).1.bytes := reads.consumed
    rw [recorded, ByteStream.delivered_append] at consumed
    exact List.append_cancel_left consumed
  refine ⟨readings, ⟨?_, recorded, ?_, ?_⟩, same⟩
  · rw [reads.now, Nat.zero_mul, Nat.add_zero]
  · intro reading member
    obtain ⟨pos, most⟩ := need_more asks
    rw [asked reading member]
    exact ⟨pos, Nat.le_of_add_left_le most⟩
  · rw [same]
    exact Nat.le_trans once some

/-- What a pass does: it ends the loop, if for lack of time then not before the limit, or it sleeps, or it gets bytes that
the frame still lacks. -/
inductive Stepped (framing : Framing) (timeout start : Nat) (s : ByteStream π) (buffer : List UInt8) :
    Passed → ByteStream π → Prop where
  | ended {outcome : Except Error (List UInt8)} {s' : ByteStream π} {readings : List ByteStream.Reading}
      (spends : framing.Spends s s' 0 1 readings) (nothing : ByteStream.delivered readings = [])
      (late : ∀ e, outcome = .error e → e.kind = .timeout → timeout ≤ s'.now - start) :
      Stepped framing timeout start s buffer (.ended outcome) s'
  | slept {s' : ByteStream π} {readings : List ByteStream.Reading} (spends : framing.Spends s s' 1 1 readings)
      (nothing : ByteStream.delivered readings = []) : Stepped framing timeout start s buffer .slept s'
  | got {bytes : List UInt8} {s' : ByteStream π} {readings : List ByteStream.Reading}
      (spends : framing.Spends s s' 0 0 readings) (same : ByteStream.delivered readings = bytes)
      (fits : (buffer ++ bytes).length ≤ framing.largest) : Stepped framing timeout start s buffer (.got bytes) s'

theorem kind_of_reject {reason : Error} (rejects : framing.need buffer = .reject reason) : reason.kind = .protocol := by
  unfold need at rejects
  cases framing with
  | mbap =>
    dsimp only at rejects
    split at rejects
    · nomatch rejects
    · split at rejects
      · cases rejects
        rfl
      · split at rejects
        · nomatch rejects
        · nomatch rejects
  | rtu =>
    dsimp only at rejects
    split at rejects
    · split at rejects
      · nomatch rejects
      · split at rejects
        · cases rejects
          rfl
        · nomatch rejects
    · cases rejects
      rfl
    · nomatch rejects

theorem stepped (framing : Framing) (timeout start : Nat) (s : ByteStream π) (buffer : List UInt8) :
    framing.Stepped timeout start s buffer (framing.pass timeout start s buffer).1
      (framing.pass timeout start s buffer).2 := by
  unfold pass
  split
  case h_1 complete =>
    refine .ended (.nothing framing s 1) rfl ?_
    rintro e ⟨⟩
  case h_2 reason rejects =>
    refine .ended (.nothing framing s 1) rfl ?_
    rintro e ⟨⟩ kind
    rw [kind_of_reject rejects] at kind
    cases kind
  case h_3 count asks =>
    split
    case isTrue late => exact .ended (.nothing framing s 1) rfl fun _ _ _ => late.2
    case isFalse early =>
      have attempted := framing.attempted s (need_more asks).1
      have spends := Spends.attempt (s := s) asks
      generalize framing.attempt s count = result at attempted spends
      obtain ⟨attempt, s'⟩ := result
      cases attempted with
      | idle none reads =>
        obtain ⟨readings, spends, nothing⟩ := spends 1 (Nat.le_refl 1)
        exact .slept (spends.trans (.slept framing s')) nothing
      | failed unreadable kind reads =>
        obtain ⟨readings, spends, nothing⟩ := spends 1 (Nat.le_refl 1)
        refine .ended spends nothing ?_
        rintro e ⟨⟩ late
        rw [kind] at late
        cases late
      | @got b bs readable size reads =>
        obtain ⟨readings, spends, same⟩ := spends 0 (Nat.succ_le_succ (Nat.zero_le _))
        refine .got spends same ?_
        have most := (need_more asks).2
        rw [List.length_append]
        omega

/-- Passes that do not end the loop get no more than a frame, and only a pass that sleeps reads in vain. -/
theorem Passes.spends {sleeps : Nat} (passes : framing.Passes timeout start s buffer sleeps s' held)
    (fits : buffer.length ≤ framing.largest) :
    ∃ readings, framing.Spends s s' sleeps sleeps readings ∧ held = buffer ++ ByteStream.delivered readings ∧
      held.length ≤ framing.largest := by
  induction passes with
  | @none s buffer => exact ⟨[], .nothing framing s 0, (List.append_nil buffer).symm, fits⟩
  | @slept s s' s'' buffer held sleeps first rest ih =>
    have step := framing.stepped timeout start s buffer
    rw [first] at step
    cases step with
    | @slept _ readings spends nothing =>
      obtain ⟨later, spent, same, most⟩ := ih fits
      refine ⟨later ++ readings, Nat.add_comm 1 sleeps ▸ spends.trans spent, ?_, most⟩
      rw [ByteStream.delivered_append, nothing, List.nil_append, same]
  | @got s s' s'' buffer bytes held sleeps first rest ih =>
    have step := framing.stepped timeout start s buffer
    rw [first] at step
    cases step with
    | @got _ _ readings spends got fits =>
      obtain ⟨later, spent, same, most⟩ := ih fits
      refine ⟨later ++ readings, Nat.zero_add sleeps ▸ spends.trans spent, ?_, most⟩
      rw [ByteStream.delivered_append, got, ← List.append_assoc, same]

/-- However long the loop goes on, it asks for at least a byte at a time and for no more than the largest frame has. -/
theorem pass_asks {there : ByteStream π} {sleeps : Nat}
    (passes : framing.Passes timeout start s [] sleeps there held) :
    ∃ readings, (framing.pass timeout start there held).2.readings = readings ++ s.readings ∧
      ∀ reading ∈ readings, 1 ≤ reading.asked ∧ reading.asked ≤ framing.largest := by
  obtain ⟨readings, before, -⟩ := passes.spends (Nat.zero_le _)
  have step := framing.stepped timeout start there held
  generalize framing.pass timeout start there held = result at step ⊢
  obtain ⟨passed, after⟩ := result
  dsimp only at step ⊢
  obtain ⟨sleeps, vain, later, now⟩ : ∃ sleeps vain later, framing.Spends there after sleeps vain later := by
    cases step with
    | ended spends _ _ => exact ⟨_, _, _, spends⟩
    | slept spends _ => exact ⟨_, _, _, spends⟩
    | got spends _ _ => exact ⟨_, _, _, spends⟩
  have all := before.trans now
  exact ⟨later ++ readings, all.recorded, all.asked⟩

/-! The loop and the wait that `receive` computes. -/

/-- The pass after all that was gathered: it ends the loop as gathering ended, or it sleeps. -/
inductive Follows (framing : Framing) (timeout start : Nat) (there : ByteStream π) (held : List UInt8) :
    Gathered → ByteStream π → Prop where
  | frame {frame : List UInt8} {s' : ByteStream π}
      (last : framing.pass timeout start there held = (.ended (.ok frame), s')) :
      Follows framing timeout start there held (.frame frame) s'
  | failed {e : Error} {s' : ByteStream π}
      (last : framing.pass timeout start there held = (.ended (.error e), s')) :
      Follows framing timeout start there held (.failed e) s'
  | waiting {count : Nat} {s' : ByteStream π} (asks : framing.need held = .more count) (now : s'.now = there.now)
      (last : framing.pass timeout start there held = (.slept, s'.advance framing.pollInterval)) :
      Follows framing timeout start there held (.waiting held) s'

theorem pass_of_early (asks : framing.need buffer = .more count) (early : ¬(timeout ≠ 0 ∧ timeout ≤ s.now - start)) :
    framing.pass timeout start s buffer =
      match framing.attempt s count with
      | (.idle, s) => (.slept, s.advance framing.pollInterval)
      | (.failed reason, s) => (.ended (.error reason), s)
      | (.got b bs, s) => (.got (b :: bs), s) := by
  rw [pass, asks]
  exact if_neg early

/-- At one moment within the time limit, the loop gathers what there is. -/
theorem gather_passes (early : ¬(timeout ≠ 0 ∧ timeout ≤ s.now - start)) (buffer : List UInt8) :
    ∃ there held, framing.Passes timeout start s buffer 0 there held ∧ there.now = s.now ∧
      framing.Follows timeout start there held (framing.gather s buffer).1 (framing.gather s buffer).2 := by
  fun_induction framing.gather s buffer with
  | case1 s buffer complete =>
    refine ⟨s, buffer, .none, rfl, .frame ?_⟩
    rw [pass, complete]
  | case2 s buffer reason rejected =>
    refine ⟨s, buffer, .none, rfl, .failed ?_⟩
    rw [pass, rejected]
  | case3 s buffer count asks s' idle =>
    have reads := framing.attempt_delivers s count
    rw [idle] at reads
    refine ⟨s, buffer, .none, rfl, .waiting asks reads.now ?_⟩
    rw [pass_of_early asks early, idle]
  | case4 s buffer count asks e s' failed =>
    refine ⟨s, buffer, .none, rfl, .failed ?_⟩
    rw [pass_of_early asks early, failed]
  | case5 s buffer count asks b bs s' got ih =>
    have reads := framing.attempt_delivers s count
    rw [got] at reads
    -- Reading takes no time, so the next pass is as early as this one.
    obtain ⟨there, held, passes, now, follows⟩ := ih (reads.now.symm ▸ early)
    refine ⟨there, held, .got ?_ passes, now.trans reads.now, follows⟩
    rw [pass_of_early asks early, got]

/-- If as many polls are left as there are before the deadline, the loop goes on to the end of the wait. Without a
deadline it goes on to where nothing more can come, and further. -/
theorem await_passes {polls : Nat} (asks : framing.need buffer = .more count) (begun : start ≤ s.now)
    (left : timeout ≠ 0 → ∀ p, p < polls ↔ s.now - start + p * framing.pollInterval < timeout) :
    ∃ sleeps ≤ polls, ∃ there held, framing.Passes timeout start s buffer sleeps there held ∧
      (framing.pass timeout start there held =
          (.ended (framing.await timeout s buffer polls).1, (framing.await timeout s buffer polls).2) ∨
        timeout = 0 ∧ (framing.await timeout s buffer polls).1 = .error .stalled ∧
          there = (framing.await timeout s buffer polls).2) := by
  induction polls generalizing s buffer count with
  | zero =>
    -- No poll is left: the limit is over, or there is none and nothing more can come.
    refine ⟨0, Nat.le_refl 0, s, buffer, .none, ?_⟩
    by_cases limited : timeout = 0
    · exact .inr ⟨limited, congrArg Except.error (if_pos limited), rfl⟩
    · have late : timeout ≤ s.now - start := by
        have none := (not_congr (left limited 0)).mp (Nat.lt_irrefl 0)
        omega
      refine .inl ?_
      rw [pass, asks, await, if_neg limited]
      exact if_pos ⟨limited, late⟩
  | succ polls ih =>
    have early : ¬(timeout ≠ 0 ∧ timeout ≤ s.now - start) := by
      rintro ⟨limited, late⟩
      have soon := (left limited 0).mp (Nat.succ_pos polls)
      omega
    obtain ⟨there, held, passes, now, follows⟩ := @gather_passes _ _ framing _ _ early buffer
    rw [await]
    generalize framing.gather s buffer = result at follows
    obtain ⟨gathered, s'⟩ := result
    cases follows with
    | frame last => exact ⟨0, Nat.zero_le _, there, held, passes, .inl last⟩
    | failed last => exact ⟨0, Nat.zero_le _, there, held, passes, .inl last⟩
    | waiting asks same last =>
      -- The pass that finds nothing sleeps, after which one poll less is left and as much less time.
      have clock : (s'.advance framing.pollInterval).now = s.now + framing.pollInterval := by
        rw [← now, ← same]
        rfl
      obtain ⟨sleeps, few, there', held', later, ends⟩ :=
        ih (s := s'.advance framing.pollInterval) asks (by omega) fun limited p => by
          have next := left limited (p + 1)
          rw [Nat.succ_mul] at next
          omega
      refine ⟨sleeps + 1, Nat.succ_le_succ few, there', held', ?_, ends⟩
      have all := passes.trans (.slept last later)
      rwa [Nat.zero_add] at all

theorem exists_need_nil (framing : Framing) : ∃ count, framing.need [] = .more count := by
  cases framing with
  | mbap => exact ⟨7, rfl⟩
  | rtu => exact ⟨3, rfl⟩

theorem receive_passes (framing : Framing) (timeout : Nat) (s : ByteStream π) :
    ∃ sleeps ≤ framing.polls timeout s, ∃ there held, framing.Passes timeout s.now s [] sleeps there held ∧
      (framing.pass timeout s.now there held =
          (.ended (framing.receive timeout s).1, (framing.receive timeout s).2) ∨
        timeout = 0 ∧ (framing.receive timeout s).1 = .error .stalled ∧ there = (framing.receive timeout s).2) := by
  obtain ⟨count, asks⟩ := framing.exists_need_nil
  refine await_passes asks (Nat.le_refl _) ?_
  intro limited p
  rw [Nat.sub_self, Nat.zero_add]
  exact framing.lt_polls_iff (Nat.pos_of_ne_zero limited) s p

theorem Ends.unique {sleeps more : Nat} {outcome other : Except Error (List UInt8)}
    (ends : framing.Ends timeout s sleeps outcome s') (ends' : framing.Ends timeout s more other s'') :
    sleeps = more ∧ outcome = other ∧ s' = s'' := by
  obtain ⟨there, held, passes, last⟩ := ends
  obtain ⟨there', held', passes', last'⟩ := ends'
  exact passes.unique last passes' last'

end Framing

end Modbus
