import Modbus.Proofs.PollLoop
import Modbus.Proofs.Transactions

/-! What a request may cost that waits no longer than a time limit: the loop that waits for its answer ends, after no more
sleeps than fit in the limit and no more bytes than a frame has. -/
namespace Modbus

variable {π : Type} {s s' : ByteStream π}

namespace Framing

variable {framing : Framing} {timeout : Nat}

/-- What a wait with this time limit may cost, and a request with one wait: no more sleeps than fit in the limit, no more
bytes than the largest frame has, and a timeout not before the limit. -/
structure Bounded {α : Type} (framing : Framing) (timeout : Nat) (s s' : ByteStream π) (outcome : Except Error α)
    (sleeps : Nat) (readings : List ByteStream.Reading) : Prop where
  spends : framing.Spends s s' sleeps (sleeps + 1) readings
  short : 0 < timeout → sleeps ≤ (timeout + framing.pollInterval - 1) / framing.pollInterval
  small : (ByteStream.delivered readings).length ≤ framing.largest
  late : ∀ e, outcome = .error e → e.kind = .timeout → s.now + timeout ≤ s'.now

/-- With a time limit the loop ends, and as the wait does. -/
theorem receive_bounded (framing : Framing) (timeout : Nat) (s : ByteStream π) : ∃ sleeps readings,
    framing.Bounded timeout s (framing.receive timeout s).2 (framing.receive timeout s).1 sleeps readings ∧
      (0 < timeout → framing.Ends timeout s sleeps (framing.receive timeout s).1 (framing.receive timeout s).2) := by
  obtain ⟨sleeps, few, there, held, passes, ends⟩ := framing.receive_passes timeout s
  obtain ⟨readings, spends, same, most⟩ := passes.spends (Nat.zero_le _)
  have short (limited : 0 < timeout) : sleeps ≤ (timeout + framing.pollInterval - 1) / framing.pollInterval := by
    unfold polls at few
    rwa [if_neg (Nat.ne_of_gt limited)] at few
  rw [List.nil_append] at same
  rcases ends with last | ⟨unlimited, stalled, rest⟩
  · have step := framing.stepped timeout s.now there held
    rw [last] at step
    dsimp only at step
    cases step with
    | @ended _ _ later spent nothing late =>
      refine ⟨sleeps, later ++ readings, ⟨spends.trans spent, short, ?_, ?_⟩, fun _ => ⟨there, held, passes, last⟩⟩
      · rw [ByteStream.delivered_append, nothing, List.append_nil, ← same]
        exact most
      · intro e failed kind
        have expires := late e failed kind
        have clock := (spends.trans spent).clock
        omega
  · rw [← rest, stalled]
    refine ⟨sleeps, readings, ⟨spends.trans (.nothing framing there 1), short, same ▸ most, ?_⟩,
      fun limited => absurd unlimited (Nat.ne_of_gt limited)⟩
    rintro e ⟨⟩ kind
    nomatch kind

section Ended

variable [Peer π]

/-- Writing takes no time and reads nothing. -/
theorem Spends.write (framing : Framing) (s : ByteStream π) (bytes : List UInt8) :
    framing.Spends s (s.write bytes).2 0 0 [] := by
  unfold ByteStream.write
  split
  · exact .nothing framing s 0
  · exact ⟨(Nat.zero_mul _).symm ▸ rfl, rfl, nofun, Nat.zero_le _⟩

theorem Ended.bounded {r : Request} {connected toAll : Bool} {enclose : Pdu → List UInt8}
    {accept : List UInt8 → Except Error Pdu} {stats after : Stats} {outcome : Except Error Pdu}
    (ended : framing.Ended timeout r connected toAll enclose accept s stats outcome s' after)
    (judges : ∀ frame e, accept frame = .error e → e.kind ≠ .timeout)
    (apart : connected = false → ∀ e, outcome = .error e → e.kind ≠ .timeout) :
    ∃ sleeps readings, framing.Bounded timeout s s' outcome sleeps readings := by
  have soon (spends : framing.Spends s s' 0 0 []) (other : ∀ e, outcome = .error e → e.kind ≠ .timeout) :
      ∃ sleeps readings, framing.Bounded timeout s s' outcome sleeps readings :=
    ⟨0, [], spends.trans (.nothing framing s' 1), fun _ => Nat.zero_le _, Nat.zero_le _,
      fun e failed kind => absurd kind (other e failed)⟩
  have written {m : Pdu} {sent : Except Error Unit} {there : ByteStream π}
      (transmit : framing.transmit s (enclose m) = (sent, there)) : framing.Spends s there 0 0 [] := by
    rw [Exchanged.there transmit]
    exact .write framing s (enclose m)
  have waited {m : Pdu} {there : ByteStream π} {result : Except Error (List UInt8)}
      (sent : framing.transmit s (enclose m) = (.ok (), there)) (receive : framing.receive timeout there = (result, s'))
      (other : ∀ e, outcome = .error e → e.kind = .timeout → result = .error e) :
      ∃ sleeps readings, framing.Bounded timeout s s' outcome sleeps readings := by
    obtain ⟨sleeps, readings, bounded, -⟩ := framing.receive_bounded timeout there
    rw [receive] at bounded
    have clock := (written sent).clock
    refine ⟨sleeps, readings, ?_, bounded.short, bounded.small, ?_⟩
    · have spends := (written sent).trans bounded.spends
      rwa [Nat.zero_add, Nat.zero_add, List.append_nil] at spends
    · intro e failed kind
      have late : there.now + timeout ≤ s'.now := bounded.late e (other e failed kind) kind
      omega
  cases ended with
  | disconnected cut => exact soon (.nothing framing s 0) (apart cut)
  | refused refused =>
    refine soon (.nothing framing s 0) ?_
    rintro e ⟨⟩ kind
    rcases Request.kind_of_toPdu refused with invalid | invalid
    · nomatch invalid.symm.trans kind
    · nomatch invalid.symm.trans kind
  | unsent message failed =>
    refine soon (written failed) ?_
    rintro e ⟨⟩ kind
    nomatch (kind_of_transmit failed).symm.trans kind
  | broadcast together unheard message sent => exact soon (written sent) nofun
  | unanswered together heard message sent failed =>
    exact waited sent failed fun _ same _ => congrArg Except.error (Except.error.inj same)
  | rejected together heard message sent received accepted =>
    refine waited sent received ?_
    rintro e ⟨⟩ kind
    exact absurd kind (judges _ _ accepted)
  | answered together heard message sent received accepted => exact waited sent received nofun

end Ended

end Framing

variable [Peer π]

theorem TcpLink.send_bounded (l : TcpLink π) (r : Request) : ∃ sleeps readings,
    Framing.mbap.Bounded l.timeout l.stream (l.send r).2.stream (l.send r).1 sleeps readings := by
  refine (l.ended r).bounded ?_ ?_
  · intro frame e refused kind
    rw [kind_of_accept refused] at kind
    cases kind
  · intro apart e failed kind
    rw [send, exchange, apart] at failed
    cases failed
    cases kind

theorem RtuLink.send_bounded (l : RtuLink π) (r : Request) : ∃ sleeps readings,
    Framing.rtu.Bounded l.timeout l.stream (l.send r).2.stream (l.send r).1 sleeps readings := by
  refine (l.ended r).bounded ?_ ?_
  · intro frame e refused kind
    rw [kind_of_accept refused] at kind
    cases kind
  · intro apart e failed kind
    rw [send, exchange, apart] at failed
    cases failed
    cases kind

/-- With a time limit the loop of a receiver ends on every stream, in one way, and a request costs no more than the limit
allows, whatever happens on the stream: so many sleeps, finitely many reads, the bytes of one frame. Only when the limit
has passed the request fails over the time. -/
theorem send_ends_within_limit {timeout : Nat} (limited : 0 < timeout) :
    (∀ (framing : Framing) (s : ByteStream π), ∃ sleeps readings,
      framing.Ends timeout s sleeps (framing.receive timeout s).1 (framing.receive timeout s).2 ∧
        framing.Bounded timeout s (framing.receive timeout s).2 (framing.receive timeout s).1 sleeps readings ∧
        ∀ more outcome s', framing.Ends timeout s more outcome s' →
          more = sleeps ∧ (outcome, s') = framing.receive timeout s) ∧
    (∀ (l : TcpLink π) (r : Request), l.timeout = timeout → ∃ sleeps ≤ (timeout + 9) / 10, ∃ readings,
      (l.send r).2.stream.now = l.stream.now + sleeps * 10 ∧
        (l.send r).2.stream.readings = readings ++ l.stream.readings ∧
        (ByteStream.delivered readings).length ≤ 260 ∧
        readings.length ≤ (ByteStream.delivered readings).length + (sleeps + 1) ∧
        ∀ e, (l.send r).1 = .error e → e.kind = .timeout → l.stream.now + timeout ≤ (l.send r).2.stream.now) ∧
    ∀ (l : RtuLink π) (r : Request), l.timeout = timeout → ∃ sleeps ≤ timeout, ∃ readings,
      (l.send r).2.stream.now = l.stream.now + sleeps ∧
        (l.send r).2.stream.readings = readings ++ l.stream.readings ∧
        (ByteStream.delivered readings).length ≤ 256 ∧
        readings.length ≤ (ByteStream.delivered readings).length + (sleeps + 1) ∧
        ∀ e, (l.send r).1 = .error e → e.kind = .timeout → l.stream.now + timeout ≤ (l.send r).2.stream.now := by
  refine ⟨fun framing s => ?_, fun l r limit => ?_, fun l r limit => ?_⟩
  · obtain ⟨sleeps, readings, bounded, ends⟩ := framing.receive_bounded timeout s
    refine ⟨sleeps, readings, ends limited, bounded, ?_⟩
    intro more outcome s' other
    obtain ⟨count, same, there⟩ := other.unique (ends limited)
    exact ⟨count, Prod.ext same there⟩
  · subst limit
    obtain ⟨sleeps, readings, bounded⟩ := l.send_bounded r
    have spends := bounded.spends
    exact ⟨sleeps, bounded.short limited, readings, spends.clock, spends.recorded, bounded.small, spends.few,
      bounded.late⟩
  · subst limit
    obtain ⟨sleeps, readings, bounded⟩ := l.send_bounded r
    have spends := bounded.spends
    have short : sleeps ≤ (l.timeout + 1 - 1) / 1 := bounded.short limited
    have clock : (l.send r).2.stream.now = l.stream.now + sleeps * 1 := spends.clock
    refine ⟨sleeps, by omega, readings, by omega, spends.recorded, bounded.small, spends.few, bounded.late⟩

open TcpLink (oneRegister)

/-- Two bytes of an answer come, and no more. -/
def brokenOff : ByteStream Loopback := { peer := .silent, schedule := [⟨4, .deliver [1, 0x03]⟩] }

def brokenTcp : TcpLink Loopback := { stream := brokenOff, timeout := 15 }

def brokenLine : RtuLink Loopback := { stream := brokenOff, timeout := 15 }

/-- With a limit of 15 milliseconds TCP polls twice, and its second sleep ends 5 milliseconds behind the limit; on a serial
line the last of 15 sleeps ends with it. -/
theorem send_ends_within_limit_brokenOff :
    (∃ s', Framing.mbap.Ends 15 brokenOff 2 (.error (.timedOut 15)) s') ∧
      ((brokenTcp.send oneRegister).1 = .error (.timedOut 15) ∧ 15 ≤ (brokenTcp.send oneRegister).2.stream.now ∧
        (brokenTcp.send oneRegister).2.stream.readings.length ≤ 5) ∧
      (brokenLine.send oneRegister).1 = .error (.timedOut 15) ∧ (brokenLine.send oneRegister).2.stream.now = 15 := by
  obtain ⟨loop, ofTcp, ofLine⟩ := @send_ends_within_limit Loopback _ 15 (by decide)
  have overTcp : (brokenTcp.send oneRegister).1 = .error (.timedOut 15) := Error.eq_error_of_raised (by decide +kernel)
  have overLine : (brokenLine.send oneRegister).1 = .error (.timedOut 15) := Error.eq_error_of_raised (by decide +kernel)
  refine ⟨?_, ⟨overTcp, ?_⟩, overLine, ?_⟩
  · obtain ⟨sleeps, readings, ends, bounded, _⟩ := loop .mbap brokenOff
    have expires : (Framing.mbap.receive 15 brokenOff).1 = .error (.timedOut 15) :=
      Error.eq_error_of_raised (by decide +kernel)
    have twenty : (Framing.mbap.receive 15 brokenOff).2.now = 20 := by decide +kernel
    have clock : (Framing.mbap.receive 15 brokenOff).2.now = 0 + sleeps * 10 := bounded.spends.clock
    obtain rfl : sleeps = 2 := by omega
    exact ⟨_, expires ▸ ends⟩
  · obtain ⟨sleeps, few, readings, clock, recorded, small, reads, late⟩ := ofTcp brokenTcp oneRegister rfl
    have all : (brokenTcp.send oneRegister).2.stream.readings = readings := recorded.trans (List.append_nil _)
    have two : (brokenTcp.send oneRegister).2.stream.consumed.length = 2 := by decide +kernel
    have got : (ByteStream.delivered readings).length = 2 := by rw [← all]; exact two
    have past := late _ overTcp rfl
    exact ⟨by omega, by rw [all]; omega⟩
  · obtain ⟨sleeps, few, readings, clock, recorded, small, reads, late⟩ := ofLine brokenLine oneRegister rfl
    have past := late _ overLine rfl
    have start : brokenLine.stream.now = 0 := rfl
    omega

end Modbus
