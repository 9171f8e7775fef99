import Modbus.Link
import Modbus.Proofs.Delivery

/-! One request on a stream: its frame is written, and then one frame is waited for. What the two framed links do with
a request is this, and differs only in the frames and in whether an answer is awaited. -/
namespace Modbus

variable {π : Type}

namespace ByteStream

theorem consumed_write [Peer π] (s : ByteStream π) (bytes : List UInt8) : (s.write bytes).2.consumed = s.consumed := by
  unfold write
  split <;> rfl

theorem arrived_write [Peer π] (s : ByteStream π) (bytes : List UInt8) :
    s.arrived <+: (s.write bytes).2.arrived := by
  unfold write
  split
  · exact List.prefix_refl _
  · exact ⟨(Peer.answer s.peer bytes).1, List.append_assoc _ _ _⟩

theorem writes_write [Peer π] (s : ByteStream π) (bytes : List UInt8) :
    (s.write bytes).1 = none ∧ (s.write bytes).2.writes = s.writes ∨
      (s.write bytes).1.isSome ∧ (s.write bytes).2.writes = bytes :: s.writes := by
  unfold write
  split
  · exact .inl ⟨rfl, rfl⟩
  · exact .inr ⟨rfl, rfl⟩

end ByteStream

namespace Framing

variable {framing : Framing} {s s' : ByteStream π} {frame : List UInt8}

section Transmit

variable [Peer π]

theorem transmit_snd (framing : Framing) (s : ByteStream π) (frame : List UInt8) :
    (framing.transmit s frame).2 = (s.write frame).2 := by
  unfold transmit
  split
  · next written => rw [written]
  · next written =>
    rw [written]
    split
    · rfl
    · split <;> rfl

theorem writes_of_transmit (sent : framing.transmit s frame = (.ok (), s')) : s'.writes = frame :: s.writes := by
  rcases s.writes_write frame with ⟨none, _⟩ | ⟨_, writes⟩
  · unfold transmit at sent
    split at sent
    · nomatch sent
    · next written =>
      rw [written] at none
      nomatch none
  · rwa [← framing.transmit_snd s frame, sent] at writes

theorem kind_of_transmit {e : Error} (failed : framing.transmit s frame = (.error e, s')) : e.kind = .connection := by
  unfold transmit at failed
  split at failed
  · cases failed
    rfl
  · split at failed
    · cases failed
      rfl
    · split at failed
      · cases failed
        rfl
      · nomatch failed

end Transmit

/-- How a request ends on the stream: refused before anything is written, written in vain, or with an answer awaited
or not. -/
inductive Exchanged [Peer π] (framing : Framing) (timeout : Nat) (r : Request) (enclose : Pdu → List UInt8)
    (accept : List UInt8 → Except Error Pdu) (s : ByteStream π) : Except Error Pdu → ByteStream π → Prop where
  | refused {e : Error} : Exchanged framing timeout r enclose accept s (.error e) s
  | unsent {m : Pdu} {e : Error} {s' : ByteStream π} (message : r.toPdu = .ok m)
      (failed : framing.transmit s (enclose m) = (.error e, s')) :
      Exchanged framing timeout r enclose accept s (.error e) s'
  | broadcast {m answer : Pdu} {s' : ByteStream π} (serial : framing = .rtu) (toAll : r.slave = 0)
      (message : r.toPdu = .ok m) (sent : framing.transmit s (enclose m) = (.ok (), s')) :
      Exchanged framing timeout r enclose accept s (.ok answer) s'
  | unanswered {m : Pdu} {e : Error} {s' s'' : ByteStream π} (message : r.toPdu = .ok m)
      (sent : framing.transmit s (enclose m) = (.ok (), s')) (failed : framing.receive timeout s' = (.error e, s'')) :
      Exchanged framing timeout r enclose accept s (.error e) s''
  | answered {m : Pdu} {frame : List UInt8} {outcome : Except Error Pdu} {s' s'' : ByteStream π}
      (message : r.toPdu = .ok m) (sent : framing.transmit s (enclose m) = (.ok (), s'))
      (received : framing.receive timeout s' = (.ok frame, s'')) (accepted : accept frame = outcome) :
      Exchanged framing timeout r enclose accept s outcome s''

/-- How a request ends on the stream and in the counters, with everything that decided it. `toAll` says whether nobody is
to answer. -/
inductive Ended [Peer π] (framing : Framing) (timeout : Nat) (r : Request) (connected toAll : Bool)
    (enclose : Pdu → List UInt8) (accept : List UInt8 → Except Error Pdu) (s : ByteStream π) (stats : Stats) :
    Except Error Pdu → ByteStream π → Stats → Prop where
  | disconnected {e : Error} (apart : connected = false) :
      Ended framing timeout r connected toAll enclose accept s stats (.error e) s (stats.failed e)
  | refused {e : Error} (refused : r.toPdu = .error e) :
      Ended framing timeout r connected toAll enclose accept s stats (.error e) s (stats.failed e)
  | unsent {m : Pdu} {e : Error} {s' : ByteStream π} (message : r.toPdu = .ok m)
      (failed : framing.transmit s (enclose m) = (.error e, s')) :
      Ended framing timeout r connected toAll enclose accept s stats (.error e) s' (stats.failed e)
  | broadcast {m answer : Pdu} {s' : ByteStream π} (together : connected = true) (unheard : toAll = true)
      (message : r.toPdu = .ok m) (sent : framing.transmit s (enclose m) = (.ok (), s')) :
      Ended framing timeout r connected toAll enclose accept s stats (.ok answer) s' (stats.sent (enclose m).length)
  | unanswered {m : Pdu} {e : Error} {s' s'' : ByteStream π} (together : connected = true) (heard : toAll = false)
      (message : r.toPdu = .ok m) (sent : framing.transmit s (enclose m) = (.ok (), s'))
      (failed : framing.receive timeout s' = (.error e, s'')) :
      Ended framing timeout r connected toAll enclose accept s stats (.error e) s''
        ((stats.sent (enclose m).length).failed e)
  | rejected {m : Pdu} {frame : List UInt8} {e : Error} {s' s'' : ByteStream π} (together : connected = true)
      (heard : toAll = false) (message : r.toPdu = .ok m) (sent : framing.transmit s (enclose m) = (.ok (), s'))
      (received : framing.receive timeout s' = (.ok frame, s'')) (accepted : accept frame = .error e) :
      Ended framing timeout r connected toAll enclose accept s stats (.error e) s''
        (((stats.sent (enclose m).length).received frame.length).failed e)
  | answered {m answer : Pdu} {frame : List UInt8} {s' s'' : ByteStream π} (together : connected = true)
      (heard : toAll = false) (message : r.toPdu = .ok m) (sent : framing.transmit s (enclose m) = (.ok (), s'))
      (received : framing.receive timeout s' = (.ok frame, s'')) (accepted : accept frame = .ok answer) :
      Ended framing timeout r connected toAll enclose accept s stats (.ok answer) s''
        (((stats.sent (enclose m).length).received frame.length).answered)

namespace Exchanged

variable [Peer π] {timeout : Nat} {r : Request} {enclose : Pdu → List UInt8} {accept : List UInt8 → Except Error Pdu}
  {outcome : Except Error Pdu}

theorem of_ended {connected toAll : Bool} {stats after : Stats}
    (ended : framing.Ended timeout r connected toAll enclose accept s stats outcome s' after)
    (serial : toAll = true → framing = .rtu ∧ r.slave = 0) : framing.Exchanged timeout r enclose accept s outcome s' := by
  cases ended with
  | disconnected apart => exact .refused
  | refused refused => exact .refused
  | unsent message failed => exact .unsent message failed
  | broadcast together unheard message sent =>
    obtain ⟨rtu, slave⟩ := serial unheard
    exact .broadcast rtu slave message sent
  | unanswered together heard message sent failed => exact .unanswered message sent failed
  | rejected together heard message sent received accepted => exact .answered message sent received accepted
  | answered together heard message sent received accepted => exact .answered message sent received accepted

theorem there {m : Pdu} {sent : Except Error Unit} (transmit : framing.transmit s (enclose m) = (sent, s')) :
    s' = (s.write (enclose m)).2 := by
  rw [← framing.transmit_snd, transmit]

/-- What writes and waits keep, a request keeps. -/
theorem kept {Q : ByteStream π → Prop} (exchanged : framing.Exchanged timeout r enclose accept s outcome s')
    (write : ∀ s bytes, Q s → Q (s.write bytes).2) (wait : ∀ s, Q s → Q (framing.receive timeout s).2) (now : Q s) :
    Q s' := by
  have there {m : Pdu} {sent : Except Error Unit} {there : ByteStream π}
      (transmit : framing.transmit s (enclose m) = (sent, there)) : Q there := by
    rw [Exchanged.there transmit]
    exact write s (enclose m) now
  have back {there : ByteStream π} {result : Except Error (List UInt8)} (kept : Q there)
      (receive : framing.receive timeout there = (result, s')) : Q s' := by
    have waited := wait there kept
    rwa [receive] at waited
  cases exchanged with
  | refused => exact now
  | unsent message failed => exact there failed
  | broadcast serial toAll message sent => exact there sent
  | unanswered message sent failed => exact back (there sent) failed
  | answered message sent received accepted => exact back (there sent) received

theorem arrived (exchanged : framing.Exchanged timeout r enclose accept s outcome s') : s.arrived <+: s'.arrived := by
  refine exchanged.kept (Q := fun there => s.arrived <+: there.arrived) ?_ ?_ (List.prefix_refl _)
  · intro there bytes before
    exact before.trans (there.arrived_write bytes)
  · intro there before
    exact before.trans (framing.receive_continues timeout there).arrived

theorem carries {P : List UInt8 → Prop} (exchanged : framing.Exchanged timeout r enclose accept s outcome s')
    (delimits : ∀ frame, P frame → framing.Delimits frame) (carries : s.Carries P) : s'.Carries P := by
  refine exchanged.kept ?_ ?_ carries
  · intro there bytes carries
    exact carries.write bytes
  · intro there carries
    exact (await_whole delimits carries timeout (framing.polls timeout there)).1

end Exchanged

/-- What a request leaves on the stream, and its outcome; `whole` and `part` say what a wait can read. -/
inductive Settled (framing : Framing) (whole part : List UInt8 → Prop) (r : Request) (enclose : Pdu → List UInt8)
    (accept : List UInt8 → Except Error Pdu) (s s' : ByteStream π) : Except Error Pdu → Prop where
  | refused {e : Error} (same : s' = s) : Settled framing whole part r enclose accept s s' (.error e)
  | unsent {m : Pdu} {e : Error} (message : r.toPdu = .ok m)
      (written : s'.writes = s.writes ∨ s'.writes = enclose m :: s.writes) (consumed : s'.consumed = s.consumed)
      (kind : e.kind = .connection) :
      Settled framing whole part r enclose accept s s' (.error e)
  | broadcast {answer : Pdu} (serial : framing = .rtu) (toAll : r.slave = 0) (consumed : s'.consumed = s.consumed) :
      Settled framing whole part r enclose accept s s' (.ok answer)
  | unanswered {m : Pdu} {e : Error} {bytes : List UInt8} (message : r.toPdu = .ok m)
      (written : s'.writes = enclose m :: s.writes) (is : part bytes) (consumed : s'.consumed = s.consumed ++ bytes)
      (kind : e.kind ≠ .protocol) : Settled framing whole part r enclose accept s s' (.error e)
  | answered {m : Pdu} {frame : List UInt8} {outcome : Except Error Pdu} (message : r.toPdu = .ok m)
      (written : s'.writes = enclose m :: s.writes) (is : whole frame) (consumed : s'.consumed = s.consumed ++ frame)
      (accepted : accept frame = outcome) : Settled framing whole part r enclose accept s s' outcome

theorem Exchanged.settled [Peer π] {timeout : Nat} {r : Request} {enclose : Pdu → List UInt8}
    {accept : List UInt8 → Except Error Pdu} {outcome : Except Error Pdu} {whole part : List UInt8 → Prop}
    (exchanged : framing.Exchanged timeout r enclose accept s outcome s')
    (received : ∀ bytes, (framing.receive timeout (s.write bytes).2).2 = s' →
      Received whole part s.consumed s' (framing.receive timeout (s.write bytes).2).1) :
    framing.Settled whole part r enclose accept s s' outcome := by
  have written {m : Pdu} {result : Except Error (List UInt8)} {there : ByteStream π}
      (sent : framing.transmit s (enclose m) = (.ok (), there)) (receive : framing.receive timeout there = (result, s')) :
      s'.writes = enclose m :: s.writes := by
    have continues := framing.receive_continues timeout there
    rw [receive] at continues
    exact continues.writes.trans (writes_of_transmit sent)
  cases exchanged with
  | refused => exact .refused rfl
  | unsent message failed =>
    refine .unsent message ?_ ?_ (kind_of_transmit failed)
    · rw [Exchanged.there failed]
      exact (s.writes_write _).imp And.right And.right
    · rw [Exchanged.there failed]
      exact s.consumed_write _
  | broadcast serial toAll message sent =>
    refine .broadcast serial toAll ?_
    rw [Exchanged.there sent]
    exact s.consumed_write _
  | @unanswered m e there _ message sent failed =>
    have result := received (enclose m)
    rw [← Exchanged.there sent, failed] at result
    cases result rfl with
    | nothing is consumed kind => exact .unanswered message (written sent failed) is consumed kind
  | @answered m frame _ there _ message sent answer accepted =>
    have result := received (enclose m)
    rw [← Exchanged.there sent, answer] at result
    cases result rfl with
    | frame is consumed => exact .answered message (written sent answer) is consumed accepted

/-- What a wait can read may be told by what there is to read. -/
theorem Settled.imp {r : Request} {enclose : Pdu → List UInt8} {accept : List UInt8 → Except Error Pdu}
    {outcome : Except Error Pdu} {whole part whole' part' : List UInt8 → Prop}
    (settled : framing.Settled whole part r enclose accept s s' outcome)
    (wholes : ∀ frame, s'.consumed = s.consumed ++ frame → whole frame → whole' frame)
    (parts : ∀ bytes, s'.consumed = s.consumed ++ bytes → part bytes → part' bytes) :
    framing.Settled whole' part' r enclose accept s s' outcome := by
  cases settled with
  | refused same => exact .refused same
  | unsent message written consumed kind => exact .unsent message written consumed kind
  | broadcast serial toAll consumed => exact .broadcast serial toAll consumed
  | unanswered message written is consumed kind =>
    exact .unanswered message written (parts _ consumed is) consumed kind
  | answered message written is consumed accepted =>
    exact .answered message written (wholes _ consumed is) consumed accepted

end Framing

end Modbus
