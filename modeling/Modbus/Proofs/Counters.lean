import Modbus.Proofs.Calls

/-! The counters of a framed link against what the medium and the caller saw of each request. -/
namespace Modbus

variable {π σ : Type}

namespace Stats

/-- The counters of two runs, one after the other. -/
def add (s t : Stats) : Stats where
  requestsSent := s.requestsSent + t.requestsSent
  responsesReceived := s.responsesReceived + t.responsesReceived
  errors := s.errors + t.errors
  timeouts := s.timeouts + t.timeouts
  bytesSent := s.bytesSent + t.bytesSent
  bytesReceived := s.bytesReceived + t.bytesReceived

theorem add_assoc (s t u : Stats) : (s.add t).add u = s.add (t.add u) := by
  simp only [add, Nat.add_assoc]

theorem empty_add (s : Stats) : add {} s = s := by
  simp only [add, Nat.zero_add]

end Stats

namespace Framing

/-- How a request ends on the stream and what it does to the counters. `frame?` is its frame if that went out, `toAll`
whether nobody is to answer it. -/
inductive Booked (framing : Framing) (frame? : Option (List UInt8)) (toAll : Bool) (s : ByteStream π) (stats : Stats) :
    Except Error Pdu → ByteStream π → Stats → Prop where
  | unsent {e : Error} {s' : ByteStream π} (sent : frame? = none) (consumed : s'.consumed = s.consumed) :
      Booked framing frame? toAll s stats (.error e) s' (stats.failed e)
  | broadcast {frame : List UInt8} {answer : Pdu} {s' : ByteStream π} (unheard : toAll = true)
      (sent : frame? = some frame) (consumed : s'.consumed = s.consumed) :
      Booked framing frame? toAll s stats (.ok answer) s' (stats.sent frame.length)
  | unanswered {frame part : List UInt8} {e : Error} {s' : ByteStream π} (heard : toAll = false)
      (sent : frame? = some frame) (consumed : s'.consumed = s.consumed ++ part)
      (incomplete : framing.need part ≠ .complete) :
      Booked framing frame? toAll s stats (.error e) s' ((stats.sent frame.length).failed e)
  | rejected {frame part : List UInt8} {e : Error} {s' : ByteStream π} (heard : toAll = false)
      (sent : frame? = some frame) (consumed : s'.consumed = s.consumed ++ part)
      (complete : framing.need part = .complete) :
      Booked framing frame? toAll s stats (.error e) s' (((stats.sent frame.length).received part.length).failed e)
  | answered {frame part : List UInt8} {answer : Pdu} {s' : ByteStream π} (heard : toAll = false)
      (sent : frame? = some frame) (consumed : s'.consumed = s.consumed ++ part)
      (complete : framing.need part = .complete) :
      Booked framing frame? toAll s stats (.ok answer) s' (((stats.sent frame.length).received part.length).answered)

variable {framing : Framing} {timeout : Nat} {s s' s'' : ByteStream π} {frame : List UInt8}

/-- Only a request whose frame went out succeeds. -/
theorem Booked.sent_of_ok {frame? : Option (List UInt8)} {toAll : Bool} {answer : Pdu} {stats after : Stats}
    (booked : framing.Booked frame? toAll s stats (.ok answer) s' after) : frame?.isSome = true := by
  cases booked with
  | broadcast unheard sent consumed => exact sent ▸ rfl
  | answered heard sent consumed complete => exact sent ▸ rfl

variable [Peer π]

theorem consumed_of_transmit {sent : Except Error Unit} (transmit : framing.transmit s frame = (sent, s')) :
    s'.consumed = s.consumed := by
  have same : s' = (s.write frame).2 := by rw [← framing.transmit_snd, transmit]
  rw [same, ByteStream.consumed_write]

/-- What a wait that fails has read is no complete frame. -/
theorem incomplete_of_receive {e : Error} (sent : framing.transmit s frame = (.ok (), s'))
    (failed : framing.receive timeout s' = (.error e, s'')) :
    ∃ part, s''.consumed = s.consumed ++ part ∧ framing.need part ≠ .complete := by
  obtain ⟨part, consumed, ok⟩ := framing.receive_delivers timeout s'
  rw [failed] at consumed ok
  rw [consumed_of_transmit sent] at consumed
  refine ⟨part, consumed, ?_⟩
  intro complete
  nomatch (ok part).mpr ⟨complete, rfl⟩

/-- A frame that a wait returns is complete and all that it has read. -/
theorem complete_of_receive {response : List UInt8} (sent : framing.transmit s frame = (.ok (), s'))
    (received : framing.receive timeout s' = (.ok response, s'')) :
    s''.consumed = s.consumed ++ response ∧ framing.need response = .complete := by
  obtain ⟨part, consumed, ok⟩ := framing.receive_delivers timeout s'
  rw [received] at consumed ok
  obtain ⟨complete, rfl⟩ := (ok response).mp rfl
  rw [consumed_of_transmit sent] at consumed
  exact ⟨consumed, complete⟩

end Framing

variable [Peer π]

namespace Call

variable [Link σ] [Framed σ π] {l : σ} {r : Request} {m : Pdu}

theorem frame?_of_disconnected (disconnected : Link.isConnected l = false) : (⟨l, r⟩ : Call σ).frame? = none := by
  rw [frame?, disconnected]
  rfl

theorem frame?_of_refused {e : Error} (refused : r.toPdu = .error e) : (⟨l, r⟩ : Call σ).frame? = none := by
  rw [frame?, refused]
  exact ite_self none

theorem frame?_of_unsent {framing : Framing} {e : Error} {there : ByteStream π} (message : r.toPdu = .ok m)
    (failed : framing.transmit (Framed.stream l) (Framed.enclose l r m) = (.error e, there)) :
    (⟨l, r⟩ : Call σ).frame? = none := by
  have refused : ¬(Framed.stream l).takes (Framed.enclose l r m) := by
    intro takes
    rw [Framing.transmit_eq_ok_iff.mpr ⟨takes, rfl⟩] at failed
    nomatch failed
  rw [frame?, message]
  dsimp only
  rw [if_neg refused]
  exact ite_self none

theorem frame?_of_sent {framing : Framing} {there : ByteStream π} (connected : Link.isConnected l = true)
    (message : r.toPdu = .ok m)
    (sent : framing.transmit (Framed.stream l) (Framed.enclose l r m) = (.ok (), there)) :
    (⟨l, r⟩ : Call σ).frame? = some (Framed.enclose l r m) := by
  rw [frame?, connected, message]
  exact if_pos (Framing.transmit_eq_ok_iff.mp sent).1

end Call

/-- A framed link that keeps its counters as its requests end. -/
class Metered (σ : Type) {π : Type} [Peer π] [Link σ] [Framed σ π] : Prop where
  ended : ∀ (l : σ) (r : Request), (Framed.framing σ).Ended (Framed.timeout l) r (Link.isConnected l)
    (⟨l, r⟩ : Call σ).isBroadcast (Framed.enclose l r) (Framed.accept l r) (Framed.stream l) (Link.stats l)
    (Link.send l r).1 (Framed.stream (Link.send l r).2) (Link.stats (Link.send l r).2)

instance : Metered (TcpLink π) := ⟨TcpLink.ended⟩

instance : Metered (RtuLink π) := ⟨RtuLink.ended⟩

/-- What the medium and the caller saw of some requests, put as counters. -/
def tally [Link σ] [Framed σ π] (calls : List (Call σ)) : Stats where
  requestsSent := (calls.filterMap Call.frame?).length
  responsesReceived := calls.countP fun c => c.outcome.isOk && !c.isBroadcast
  errors := calls.countP fun c => !c.outcome.isOk
  timeouts := calls.countP Call.timedOut
  bytesSent := (calls.filterMap Call.frame?).flatten.length
  bytesReceived := (calls.filterMap Call.response?).flatten.length

theorem tally_cons [Link σ] [Framed σ π] (c : Call σ) (calls : List (Call σ)) :
    tally (c :: calls) = (tally [c]).add (tally calls) := by
  have both : c :: calls = [c] ++ calls := rfl
  simp only [both, tally, Stats.add, List.filterMap_append, List.flatten_append, List.length_append, List.countP_append]

/-- The counters of a link that has done these requests and no others. -/
structure Accounts [Link σ] [Framed σ π] (calls : List (Call σ)) (stats : Stats) : Prop where
  errors : stats.errors = calls.countP fun c => !c.outcome.isOk
  timeouts : stats.timeouts = calls.countP Call.timedOut
  responsesReceived : stats.responsesReceived = calls.countP fun c => c.outcome.isOk && !c.isBroadcast
  requestsSent : stats.requestsSent = (calls.filterMap Call.frame?).length
  bytesSent : stats.bytesSent = (calls.filterMap Call.frame?).flatten.length
  bytesReceived : stats.bytesReceived = (calls.filterMap Call.response?).flatten.length
  received_le_sent : stats.responsesReceived ≤ stats.requestsSent
  ended : stats.responsesReceived + stats.errors + calls.countP (fun c => c.outcome.isOk && c.isBroadcast) = calls.length
  received_le_read : stats.bytesReceived ≤ (calls.map Call.read).flatten.length

section Metered

variable [Link σ] [Framed σ π]

theorem Call.response?_of_complete {c : Call σ} {part : List UInt8}
    (consumed : (Framed.stream c.after).consumed = (Framed.stream c.link).consumed ++ part)
    (complete : (Framed.framing σ).need part = .complete) : c.response? = some part := by
  rw [response?, read_of_consumed consumed]
  exact if_pos complete

theorem Call.response?_of_incomplete {c : Call σ} {part : List UInt8}
    (consumed : (Framed.stream c.after).consumed = (Framed.stream c.link).consumed ++ part)
    (incomplete : (Framed.framing σ).need part ≠ .complete) : c.response? = none := by
  rw [response?, read_of_consumed consumed]
  exact if_neg incomplete

theorem Call.response?_of_unread {c : Call σ}
    (consumed : (Framed.stream c.after).consumed = (Framed.stream c.link).consumed) : c.response? = none :=
  response?_of_incomplete (consumed.trans (List.append_nil _).symm) (Framed.framing σ).need_nil

theorem Call.eq_read_of_response? {c : Call σ} {frame : List UInt8} (response : c.response? = some frame) :
    frame = c.read := by
  rw [response?] at response
  split at response
  · exact (Option.some.inj response).symm
  · nomatch response

variable [Metered σ]

theorem Call.booked (c : Call σ) :
    (Framed.framing σ).Booked c.frame? c.isBroadcast (Framed.stream c.link) (Link.stats c.link) c.outcome
      (Framed.stream c.after) (Link.stats c.after) := by
  have ended := Metered.ended (π := π) c.link c.request
  change (Framed.framing σ).Ended _ _ _ c.isBroadcast _ _ _ _ c.outcome (Framed.stream c.after) (Link.stats c.after)
    at ended
  generalize c.outcome = outcome, Framed.stream c.after = stream, Link.stats c.after = stats at ended ⊢
  cases ended with
  | disconnected apart => exact .unsent (frame?_of_disconnected apart) rfl
  | refused refused => exact .unsent (frame?_of_refused refused) rfl
  | unsent message failed => exact .unsent (frame?_of_unsent message failed) (Framing.consumed_of_transmit failed)
  | broadcast together unheard message sent =>
    exact .broadcast unheard (frame?_of_sent together message sent) (Framing.consumed_of_transmit sent)
  | unanswered together heard message sent failed =>
    obtain ⟨part, consumed, incomplete⟩ := Framing.incomplete_of_receive sent failed
    exact .unanswered heard (frame?_of_sent together message sent) consumed incomplete
  | rejected together heard message sent received accepted =>
    obtain ⟨consumed, complete⟩ := Framing.complete_of_receive sent received
    exact .rejected heard (frame?_of_sent together message sent) consumed complete
  | answered together heard message sent received accepted =>
    obtain ⟨consumed, complete⟩ := Framing.complete_of_receive sent received
    exact .answered heard (frame?_of_sent together message sent) consumed complete

/-- One request adds to the counters what was seen of it. -/
theorem Call.stats_after (c : Call σ) : Link.stats c.after = (Link.stats c.link).add (tally [c]) := by
  have booked := c.booked
  generalize outcome : c.outcome = result at booked
  generalize there : Framed.stream c.after = stream at booked
  generalize Link.stats c.after = after at booked ⊢
  cases booked with
  | unsent sent consumed =>
    have response := c.response?_of_unread (there ▸ consumed)
    simp [tally, Stats.add, Stats.failed, timedOut, sent, response, outcome, Except.isOk, Except.toBool]
  | broadcast unheard sent consumed =>
    have response := c.response?_of_unread (there ▸ consumed)
    simp [tally, Stats.add, Stats.sent, timedOut, unheard, sent, response, outcome, Except.isOk, Except.toBool]
  | unanswered heard sent consumed incomplete =>
    have response := Call.response?_of_incomplete (there ▸ consumed) incomplete
    simp [tally, Stats.add, Stats.sent, Stats.failed, timedOut, sent, response, outcome, Except.isOk, Except.toBool]
  | rejected heard sent consumed complete =>
    have response := Call.response?_of_complete (there ▸ consumed) complete
    simp [tally, Stats.add, Stats.sent, Stats.received, Stats.failed, timedOut, sent, response, outcome, Except.isOk,
      Except.toBool]
  | answered heard sent consumed complete =>
    have response := Call.response?_of_complete (there ▸ consumed) complete
    simp [tally, Stats.add, Stats.sent, Stats.received, Stats.answered, timedOut, heard, sent, response, outcome,
      Except.isOk, Except.toBool]

/-- Between the requests anything may happen to the link and its stream, as long as nobody touches the counters. -/
def Untouched (l l' : σ) : Prop := Link.stats l' = Link.stats l

theorem Session.stats_eq {l l' : σ} {calls : List (Call σ)} (session : Session Untouched l calls l') :
    Link.stats l' = (Link.stats l).add (tally calls) := by
  induction session with
  | nil l => rfl
  | outside change rest ih => rw [ih, change]
  | request r rest ih =>
    rw [ih, tally_cons, ← Stats.add_assoc]
    exact congrArg (Stats.add · _) (Call.stats_after ⟨_, r⟩)

theorem tally_accounts (calls : List (Call σ)) : Accounts calls (tally calls) where
  errors := rfl
  timeouts := rfl
  responsesReceived := rfl
  requestsSent := rfl
  bytesSent := rfl
  bytesReceived := rfl
  received_le_sent := by
    rw [tally, List.length_filterMap_eq_countP]
    refine List.countP_mono_left ?_
    intro c _ answered
    have ok := (Bool.and_eq_true_iff.mp answered).1
    have booked := c.booked
    cases outcome : c.outcome with
    | ok answer => exact (outcome ▸ booked).sent_of_ok
    | error e =>
      rw [outcome] at ok
      nomatch ok
  ended := by
    have all := List.length_eq_countP_add_countP (l := calls) fun c => c.outcome.isOk
    have fine := List.countP_eq_countP_filter_add calls (fun c => c.outcome.isOk) Call.isBroadcast
    simp only [List.countP_filter] at fine
    simp only [Bool.not_eq_true, Bool.decide_eq_false] at all
    simp only [tally]
    omega
  received_le_read := by
    simp only [tally]
    induction calls with
    | nil => exact Nat.le_refl 0
    | cons c calls ih =>
      rw [List.map_cons, List.flatten_cons, List.length_append]
      cases response : c.response? with
      | none =>
        rw [List.filterMap_cons_none response]
        exact Nat.le_add_left_of_le ih
      | some frame =>
        rw [List.filterMap_cons_some response, List.flatten_cons, List.length_append, Call.eq_read_of_response? response]
        exact Nat.add_le_add_left ih _

theorem Session.accounts {l l' : σ} {calls : List (Call σ)} (session : Session Untouched l calls l')
    (fresh : Link.stats l = {}) : Accounts calls (Link.stats l') := by
  rw [session.stats_eq, fresh, Stats.empty_add]
  exact tally_accounts calls

end Metered

/-- Whatever happens on the medium, the counters of a framed link are what was seen of its requests: how many failed, how
many of those over the time, how many were answered, and which frames went out and came in. -/
theorem session_accounts {π : Type} [Peer π] :
    (∀ {l l' : TcpLink π} {calls : List (Call (TcpLink π))}, l.stats = {} → Session Untouched l calls l' →
        Accounts calls l'.stats) ∧
      ∀ {l l' : RtuLink π} {calls : List (Call (RtuLink π))}, l.stats = {} → Session Untouched l calls l' →
        Accounts calls l'.stats := by
  constructor
  · intro l l' calls fresh session
    exact session.accounts fresh
  · intro l l' calls fresh session
    exact session.accounts fresh

def writeThree (slave : UInt8) : Request := { slave, function := 0x06, address := 1, quantity := 1, data := [0, 3] }

def threeWritten : List UInt8 := Rtu.encode 1 ⟨[0x06, 0, 1, 0, 3], by decide⟩

/-- On TCP nobody answers. On a serial line one write is answered, one goes to all slaves, and the answer to the last one
comes with a wrong checksum. -/
theorem session_accounts_of_damaged_answer :
    (∃ (calls : List (Call (TcpLink Loopback))) (l' : TcpLink Loopback), calls.length = 1 ∧
        Session Untouched { stream := { peer := .silent } } calls l' ∧ Accounts calls l'.stats ∧
        l'.stats = { requestsSent := 1, errors := 1, timeouts := 1, bytesSent := 12 }) ∧
      ∃ (calls : List (Call (RtuLink Loopback))) (l' : RtuLink Loopback), calls.length = 3 ∧
        Session Untouched { stream := { peer := .silent } } calls l' ∧ Accounts calls l'.stats ∧
        l'.stats = { requestsSent := 3, responsesReceived := 1, errors := 1, bytesSent := 24, bytesReceived := 16 } := by
  constructor
  · have session : Session Untouched (σ := TcpLink Loopback) { stream := { peer := .silent } } _ _ :=
      .request (writeThree 1) (.nil _)
    exact ⟨_, _, rfl, session, session_accounts.1 rfl session, by decide +kernel⟩
  · have answer (l : RtuLink Loopback) (bytes : List UInt8) :
        Untouched l { l with stream := l.stream.setPending bytes } := rfl
    have session : Session Untouched (σ := RtuLink Loopback) { stream := { peer := .silent } } _ _ :=
      .outside (answer _ threeWritten) <| .request (writeThree 1) <| .request (writeThree 0) <|
        .outside (answer _ (threeWritten.dropLast ++ [0])) <| .request (writeThree 1) <| .nil _
    exact ⟨_, _, rfl, session, session_accounts.2 rfl session, by decide +kernel⟩

end Modbus
