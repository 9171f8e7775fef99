import Modbus.Proofs.Alignment
import Modbus.Proofs.Counters
import Modbus.Proofs.Lag
import Modbus.Proofs.LateAnswers
import Modbus.Proofs.TimeLimit

/-! An answer in segments. However a frame and the bytes behind it are cut, and whenever the pieces come, a request for
which the frame is there in time takes the frame, and the outcome depends on the frame alone. -/
namespace Modbus

variable {π : Type} {s s' : ByteStream π} {part : List UInt8}

namespace ByteStream

def Occurrence.bytes : Occurrence → List UInt8
  | deliver bytes => bytes
  | hangUp => []

/-- All that is left to read: what has come, and what is still to come. -/
def outstanding (s : ByteStream π) : List UInt8 :=
  s.queue.pending ++ s.schedule.flatMap fun entry => entry.occurrence.bytes

theorem pending_happen (s : ByteStream π) (o : Occurrence) : (s.happen o).queue.pending = s.queue.pending ++ o.bytes := by
  cases o with
  | deliver bytes => rfl
  | hangUp =>
    simp only [happen, close, Occurrence.bytes, List.append_nil]
    split
    · rfl
    · rfl

theorem outstanding_advance (s : ByteStream π) (ms : Nat) : (s.advance ms).outstanding = s.outstanding := by
  have happenings (due : List Scheduled) (s : ByteStream π) :
      (due.foldl (fun s entry => s.happen entry.occurrence) s).queue.pending =
        s.queue.pending ++ due.flatMap fun entry => entry.occurrence.bytes := by
    induction due generalizing s with
    | nil => exact (List.append_nil _).symm
    | cons entry rest ih =>
      rw [List.foldl_cons, ih, pending_happen, List.flatMap_cons, List.append_assoc]
  simp only [outstanding, advance, happenings, List.append_assoc, ← List.flatMap_append, List.takeWhile_append_dropWhile]

theorem Reads.outstanding (reads : s.Reads s' part) : s.outstanding = part ++ s'.outstanding := by
  have pending := reads.pending
  obtain ⟨queue, readings, rfl⟩ := reads.only
  simp only [ByteStream.outstanding, pending, List.append_assoc]

/-- Nothing is lost or repeated along the way from the schedule to the reader. -/
theorem Reads.total (reads : s.Reads s' part) : s'.consumed ++ s'.outstanding = s.consumed ++ s.outstanding := by
  rw [reads.consumed, reads.outstanding, List.append_assoc]

end ByteStream

namespace Framing

variable {framing : Framing} {timeout : Nat} {frame : List UInt8}

theorem total_receive (framing : Framing) (timeout : Nat) (s : ByteStream π) :
    (framing.receive timeout s).2.consumed ++ (framing.receive timeout s).2.outstanding =
      s.consumed ++ s.outstanding := by
  refine framing.await_kept (Q := fun there => there.consumed ++ there.outstanding = s.consumed ++ s.outstanding)
    ?_ ?_ rfl timeout [] (framing.polls timeout s)
  · intro there after part reads same
    exact reads.total.trans same
  · intro there same
    rw [there.consumed_advance, there.outstanding_advance, same]

/-- At a poll before the time is over, all of the frame is there to be read, if nothing was read until then. -/
def Timely (framing : Framing) (timeout : Nat) (s : ByteStream π) (frame : List UInt8) : Prop :=
  ∃ p, (timeout = 0 ∨ p * framing.pollInterval < timeout) ∧ (framing.atPoll p s).Readable ∧
    frame <+: (framing.atPoll p s).queue.pending

theorem consumed_atPoll (framing : Framing) (p : Nat) (s : ByteStream π) : (framing.atPoll p s).consumed = s.consumed := by
  induction p generalizing s with
  | zero => rfl
  | succ p ih => exact (ih _).trans (s.consumed_advance _)

/-- A frame that is there in time is received, whatever pieces it came in, and all that is outstanding behind it stays
so. -/
theorem receive_of_timely (delimits : framing.Delimits frame) (orderly : s.Orderly)
    (timely : framing.Timely timeout s frame) :
    (framing.receive timeout s).1 = .ok frame ∧ (framing.receive timeout s).2.consumed = s.consumed ++ frame ∧
      s.outstanding = frame ++ (framing.receive timeout s).2.outstanding := by
  obtain ⟨p, early, readable, tail, there⟩ := timely
  have arrived : (framing.atPoll p s).arrived = s.consumed ++ (frame ++ tail) := by
    rw [ByteStream.arrived, framing.consumed_atPoll, there]
  obtain ⟨received, consumed⟩ := receive_of_arrived delimits orderly early readable arrived
  have total := framing.total_receive timeout s
  rw [consumed, List.append_assoc] at total
  exact ⟨received, consumed, (List.append_cancel_left total).symm⟩

end Framing

variable [Peer π]

namespace Call

variable {σ : Type} [Link σ] [Framed σ π] [Metered σ] {c : Call σ} {request frame : List UInt8}

/-- A request whose frame went out waits for an answer, unless nobody is to answer, and judges what it gets. -/
theorem waits (sent : c.frame? = some request) (heard : c.isBroadcast = false) :
    let wait := (Framed.framing σ).receive (Framed.timeout c.link) ((Framed.stream c.link).write request).2
    c.outcome = wait.1 >>= Framed.accept c.link c.request ∧ Framed.stream c.after = wait.2 := by
  intro wait
  have written {m : Pdu} {there : ByteStream π} (together : Link.isConnected c.link = true)
      (message : c.request.toPdu = .ok m)
      (transmit : (Framed.framing σ).transmit (Framed.stream c.link) (Framed.enclose c.link c.request m) =
        (.ok (), there)) : (Framed.framing σ).receive (Framed.timeout c.link) there = wait := by
    have same := frame?_of_sent together message transmit
    rw [(Framing.transmit_eq_ok_iff.mp transmit).2, ← Option.some.inj (sent.symm.trans same)]
  have ended := Metered.ended (π := π) c.link c.request
  change (Framed.framing σ).Ended _ _ _ c.isBroadcast _ _ _ _ c.outcome (Framed.stream c.after) (Link.stats c.after)
    at ended
  generalize c.outcome = outcome, Framed.stream c.after = stream, Link.stats c.after = stats at ended ⊢
  rw [heard] at ended
  -- Of the ways in which a request can end, the frame that went out rules out all that come before the wait.
  cases ended with
  | disconnected apart => nomatch sent.symm.trans (frame?_of_disconnected apart)
  | refused refused => nomatch sent.symm.trans (frame?_of_refused refused)
  | unsent message failed => nomatch sent.symm.trans (frame?_of_unsent message failed)
  | broadcast together unheard => nomatch unheard
  | unanswered together _ message transmit failed =>
    rw [← written together message transmit, failed]
    exact ⟨rfl, rfl⟩
  | rejected together _ message transmit received accepted =>
    rw [← written together message transmit, received]
    exact ⟨accepted.symm, rfl⟩
  | answered together _ message transmit received accepted =>
    rw [← written together message transmit, received]
    exact ⟨accepted.symm, rfl⟩

/-- A request for whose frame an answer is there in time takes the answer and nothing behind it, and is judged by it. -/
theorem of_timely (sent : c.frame? = some request) (heard : c.isBroadcast = false)
    (delimits : (Framed.framing σ).Delimits frame) (orderly : (Framed.stream c.link).Orderly)
    (timely : (Framed.framing σ).Timely (Framed.timeout c.link) ((Framed.stream c.link).write request).2 frame) :
    c.outcome = Framed.accept c.link c.request frame ∧
      (Framed.stream c.after).consumed = (Framed.stream c.link).consumed ++ frame ∧
      ((Framed.stream c.link).write request).2.outstanding = frame ++ (Framed.stream c.after).outstanding := by
  obtain ⟨outcome, after⟩ := waits sent heard
  obtain ⟨whole, consumed, outstanding⟩ := Framing.receive_of_timely delimits (orderly.write request) timely
  rw [ByteStream.consumed_write, ← after] at consumed
  rw [← after] at outstanding
  rw [whole] at outcome
  exact ⟨outcome, consumed, outstanding⟩

end Call

namespace TcpLink

variable {transaction : UInt16} {unitId : UInt8} {frame : List UInt8} {h : Mbap.Header}

/-- Which frames are accepted: of those that have the size that their header tells, the ones with the right ids. -/
theorem accept_of_header? (header : Mbap.header? frame = some h) (least : 2 ≤ h.length.toNat)
    (most : h.length.toNat ≤ 254) (size : frame.length = 6 + h.length.toNat) :
    (h.protocolId = 0 ∧ h.transactionId = transaction ∧ h.unitId = unitId →
      ∃ answer : Pdu, answer.bytes = frame.drop 7 ∧ accept transaction unitId frame = .ok answer) ∧
    (¬(h.protocolId = 0 ∧ h.transactionId = transaction ∧ h.unitId = unitId) →
      ∃ e, accept transaction unitId frame = .error e ∧ e.kind = .protocol) := by
  by_cases protocol : h.protocolId = 0
  · obtain ⟨f, rfl⟩ := Mbap.WellFormed.exists_frame ⟨h, header, protocol, least, most, size⟩
    obtain rfl : (⟨f.transactionId, 0, .ofNat (1 + f.pdu.bytes.length), f.unitId⟩ : Mbap.Header) = h :=
      Option.some.inj (Mbap.header?_encode.symm.trans header)
    constructor
    · rintro ⟨_, same, unit⟩
      refine ⟨f.pdu, rfl, ?_⟩
      rw [accept_frame, if_neg (not_not_intro same), if_neg (not_not_intro unit)]
    · intro foreign
      cases judged : accept transaction unitId f.bytes with
      | error e => exact ⟨e, rfl, kind_of_accept judged⟩
      | ok answer =>
        obtain ⟨same, unit, -⟩ := accept_eq_ok judged
        exact absurd ⟨protocol, same, unit⟩ foreign
  · have undecoded : Mbap.decode frame = .error (.mbapProtocolId h.protocolId) := by
      rw [Mbap.decode, header]
      exact if_pos protocol
    refine ⟨fun right => absurd right.1 protocol, fun _ => ⟨.mbapProtocolId h.protocolId, ?_, rfl⟩⟩
    simp only [accept, undecoded, bind, Except.bind]

/-- However a frame and what comes behind it are cut, and whenever the pieces come: if all of the frame is there in time,
the request takes the frame and nothing of what is behind it, and the outcome is that of the frame. -/
theorem send_of_segmented_frame {l : TcpLink π} {r : Request} {request tail : List UInt8}
    (header : Mbap.header? frame = some h) (least : 2 ≤ h.length.toNat) (most : h.length.toNat ≤ 254)
    (size : frame.length = 6 + h.length.toNat) (sent : (⟨l, r⟩ : Call (TcpLink π)).frame? = some request)
    (orderly : l.stream.Orderly) (only : (l.stream.write request).2.outstanding = frame ++ tail)
    (timely : Framing.mbap.Timely l.timeout (l.stream.write request).2 frame) :
    (l.send r).2.stream.consumed = l.stream.consumed ++ frame ∧ (l.send r).2.stream.outstanding = tail ∧
      (l.send r).1 = accept l.nextTransaction r.slave frame ∧
      (h.protocolId = 0 ∧ h.transactionId = l.nextTransaction ∧ h.unitId = r.slave →
        ∃ answer : Pdu, answer.bytes = frame.drop 7 ∧ (l.send r).1 = .ok answer) ∧
      (¬(h.protocolId = 0 ∧ h.transactionId = l.nextTransaction ∧ h.unitId = r.slave) →
        ∃ e, (l.send r).1 = .error e ∧ e.kind = .protocol) := by
  have delimits := Mbap.delimits_of_header? header (Mbap.Header.lengthValid_iff.mpr ⟨least, most⟩) size
  obtain ⟨outcome, consumed, outstanding⟩ :=
    Call.of_timely (c := (⟨l, r⟩ : Call (TcpLink π))) sent rfl delimits orderly timely
  have outcome : (l.send r).1 = accept l.nextTransaction r.slave frame := outcome
  refine ⟨consumed, List.append_cancel_left (outstanding.symm.trans only), outcome, ?_⟩
  rw [outcome]
  exact accept_of_header? header least most size

/-- Three bytes of the answer with the id 1 come before the first sleep ends, and the others before the second one does, with
two bytes of another frame. -/
def twoSegments (nextTransaction : UInt16) : TcpLink Loopback :=
  { stream :=
      { peer := .silent
        schedule := [⟨3, .deliver (lateAnswer.bytes.take 3)⟩, ⟨12, .deliver (lateAnswer.bytes.drop 3 ++ [0, 2])⟩] }
    timeout := 30
    nextTransaction }

/-- A link that expects another id takes as much and refuses it. -/
theorem send_of_segmented_frame_twoSegments :
    (((twoSegments 1).send oneRegister).2.stream.consumed = lateAnswer.bytes ∧
      ((twoSegments 1).send oneRegister).2.stream.outstanding = [0, 2] ∧
      ((twoSegments 1).send oneRegister).1 = .ok lateAnswer.pdu) ∧
    ((twoSegments 7).send oneRegister).2.stream.consumed = lateAnswer.bytes ∧
      ((twoSegments 7).send oneRegister).2.stream.outstanding = [0, 2] ∧
      ∃ e, ((twoSegments 7).send oneRegister).1 = .error e ∧ e.kind = .protocol := by
  have header : Mbap.header? lateAnswer.bytes = some ⟨1, 0, 5, 1⟩ := rfl
  constructor
  · have sent : (⟨twoSegments 1, oneRegister⟩ : Call (TcpLink Loopback)).frame? =
        some [0, 1, 0, 0, 0, 6, 1, 0x03, 0, 0, 0, 1] := by decide +kernel
    have only : ((twoSegments 1).stream.write [0, 1, 0, 0, 0, 6, 1, 0x03, 0, 0, 0, 1]).2.outstanding =
        lateAnswer.bytes ++ [0, 2] := by decide +kernel
    obtain ⟨consumed, rest, -, right, -⟩ := send_of_segmented_frame header (by decide) (by decide) (by decide) sent
      (by decide +kernel) only
      ⟨2, .inr (by decide), ⟨by decide +kernel, by decide +kernel, by decide +kernel⟩, by decide +kernel⟩
    obtain ⟨answer, bytes, ok⟩ := right ⟨rfl, rfl, rfl⟩
    exact ⟨consumed, rest, Pdu.eq_ok_of_bytes (by rw [ok]; exact congrArg some bytes)⟩
  · have sent : (⟨twoSegments 7, oneRegister⟩ : Call (TcpLink Loopback)).frame? =
        some [0, 7, 0, 0, 0, 6, 1, 0x03, 0, 0, 0, 1] := by decide +kernel
    have only : ((twoSegments 7).stream.write [0, 7, 0, 0, 0, 6, 1, 0x03, 0, 0, 0, 1]).2.outstanding =
        lateAnswer.bytes ++ [0, 2] := by decide +kernel
    obtain ⟨consumed, rest, -, -, foreign⟩ := send_of_segmented_frame header (by decide) (by decide) (by decide) sent
      (by decide +kernel) only
      ⟨2, .inr (by decide), ⟨by decide +kernel, by decide +kernel, by decide +kernel⟩, by decide +kernel⟩
    exact ⟨consumed, rest, foreign (by decide)⟩

end TcpLink

namespace Rtu

/-- A response from which its size can be told: an exception, a payload behind its count, or the echo of a write. -/
inductive Conforming : List UInt8 → Prop where
  | exception {function code : UInt8} (high : 0x80 ≤ function) : Conforming [function, code]
  | counted {function : UInt8} {payload : List UInt8} (reads : function ∈ [0x01, 0x02, 0x03, 0x04, 0x17])
      (short : payload.length ≤ 251) : Conforming (function :: .ofNat payload.length :: payload)
  | echo {function : UInt8} {body : List UInt8} (writes : function ∈ [0x05, 0x06, 0x0F, 0x10]) (size : body.length = 4) :
      Conforming (function :: body)

theorem Conforming.sized {pdu : Pdu} (conforming : Conforming pdu.bytes) : Sized pdu := by
  suffices tells : 2 ≤ pdu.bytes.length ∧ expectedSize? (0 :: pdu.bytes) = some (pdu.bytes.length + 3) from
    ⟨tells.1, tells.2⟩
  generalize pdu.bytes = bytes at conforming ⊢
  cases conforming with
  | exception high =>
    exact ⟨Nat.le_refl 2, if_pos (decide_eq_true high)⟩
  | @counted function payload reads short =>
    have count : (UInt8.ofNat payload.length).toNat = payload.length :=
      UInt8.toNat_ofNat_of_lt' (Nat.lt_of_le_of_lt short (by decide))
    have whole : some (5 + (UInt8.ofNat payload.length).toNat) = some (payload.length + 5) := by rw [count, Nat.add_comm]
    refine ⟨Nat.le_add_left .., ?_⟩
    simp only [List.mem_cons, List.not_mem_nil, or_false] at reads
    rcases reads with rfl | rfl | rfl | rfl | rfl
    all_goals exact whole
  | @echo function body writes size =>
    rw [List.length_cons, size]
    refine ⟨by decide, ?_⟩
    simp only [List.mem_cons, List.not_mem_nil, or_false] at writes
    rcases writes with rfl | rfl | rfl | rfl
    all_goals rfl

theorem isComplete_iff {frame : List UInt8} : isComplete frame = true ↔ Framing.rtu.need frame = .complete := by
  unfold isComplete Framing.need
  cases expectedSize? frame with
  | none =>
    refine iff_of_false nofun ?_
    match frame with
    | [] | [_] | [_, _] | _ :: _ :: _ :: _ => nofun
  | some size =>
    rw [Option.any_some, decide_eq_true_eq]
    dsimp only
    split
    case isTrue whole => exact iff_of_true whole rfl
    case isFalse short =>
      refine iff_of_false short ?_
      split
      · nofun
      · nofun

theorem isComplete_of_delimits {frame : List UInt8} (delimits : Framing.rtu.Delimits frame) :
    (∀ k < frame.length, isComplete (frame.take k) = false) ∧ isComplete frame = true := by
  refine ⟨?_, isComplete_iff.mpr delimits.complete⟩
  intro k inside
  obtain ⟨count, asks, _⟩ := delimits.more k inside
  refine Bool.eq_false_iff.mpr fun complete => ?_
  rw [isComplete_iff.mp complete] at asks
  cases asks

end Rtu

namespace RtuLink

/-- The frame of a conforming response is complete with its last byte and not before, and however it and what comes behind
it are cut: if all of the frame is there in time, the request that it answers takes it and nothing behind it. Whatever
comes, a receiver never asks for nothing or for more than the largest frame has; also one that waits without a limit. -/
theorem send_of_segmented_response :
    (∀ {slave : UInt8} {p : Pdu}, Rtu.Conforming p.bytes →
      let frame := Rtu.encode slave p
      (∀ k < frame.length, Rtu.isComplete (frame.take k) = false) ∧ Rtu.isComplete frame = true) ∧
    (∀ {l : RtuLink π} {r : Request} {p : Pdu} {request tail : List UInt8}, r.slave ≠ 0 → Rtu.Conforming p.bytes →
      let frame := Rtu.encode r.slave p
      (⟨l, r⟩ : Call (RtuLink π)).frame? = some request → l.stream.Orderly →
      (l.stream.write request).2.outstanding = frame ++ tail →
      Framing.rtu.Timely l.timeout (l.stream.write request).2 frame →
      (l.send r).1 = .ok p ∧ (l.send r).2.stream.consumed = l.stream.consumed ++ frame ∧
        (l.send r).2.stream.outstanding = tail) ∧
    (∀ (l : RtuLink π) (r : Request), ∃ readings, (l.send r).2.stream.readings = readings ++ l.stream.readings ∧
      ∀ reading ∈ readings, 1 ≤ reading.asked ∧ reading.asked ≤ 256) ∧
    ∀ {timeout start sleeps : Nat} {s there : ByteStream π} {held : List UInt8},
      Framing.rtu.Passes timeout start s [] sleeps there held →
      ∃ readings, (Framing.rtu.pass timeout start there held).2.readings = readings ++ s.readings ∧
        ∀ reading ∈ readings, 1 ≤ reading.asked ∧ reading.asked ≤ 256 := by
  refine ⟨?_, ?_, fun l r => ?_, Framing.pass_asks⟩
  · intro slave p conforming
    exact Rtu.isComplete_of_delimits (conforming.sized.delimits slave)
  · intro l r p request tail unicast conforming frame sent orderly only timely
    have sized := conforming.sized
    have delimits := sized.delimits r.slave
    have heard : (⟨l, r⟩ : Call (RtuLink π)).isBroadcast = false := by
      rw [Call.isBroadcast, Request.isBroadcast, beq_false_of_ne unicast, Bool.false_and, Bool.and_false]
    obtain ⟨outcome, consumed, outstanding⟩ :=
      Call.of_timely (c := (⟨l, r⟩ : Call (RtuLink π))) sent heard delimits orderly timely
    refine ⟨?_, consumed, List.append_cancel_left (outstanding.symm.trans only)⟩
    exact outcome.trans ((accept_encode sized).trans (if_pos rfl))
  · obtain ⟨sleeps, readings, bounded⟩ := l.send_bounded r
    exact ⟨readings, bounded.spends.recorded, bounded.spends.asked⟩

/-- The answer comes in three pieces, the last of them at the last poll and with two bytes behind it. -/
def threeSegments : RtuLink Loopback :=
  { stream :=
      { peer := .silent
        schedule := [⟨1, .deliver ((countedFrame 7).take 1)⟩, ⟨3, .deliver (((countedFrame 7).drop 1).take 3)⟩,
          ⟨4, .deliver ((countedFrame 7).drop 4 ++ [1, 3])⟩] }
    timeout := 5 }

theorem send_of_segmented_response_threeSegments :
    Rtu.isComplete ((countedFrame 7).take 6) = false ∧
    ((threeSegments.send (readRegister 0)).1 = .ok (countedReply 7) ∧
      (threeSegments.send (readRegister 0)).2.stream.consumed = countedFrame 7 ∧
      (threeSegments.send (readRegister 0)).2.stream.outstanding = [1, 3]) ∧
    (∃ readings, (threeSegments.send (readRegister 0)).2.stream.readings = readings ∧
      ∀ reading ∈ readings, 1 ≤ reading.asked ∧ reading.asked ≤ 256) ∧
    ∃ readings, (Framing.rtu.pass 0 0 threeSegments.stream []).2.readings = readings ∧
      ∀ reading ∈ readings, 1 ≤ reading.asked ∧ reading.asked ≤ 256 := by
  obtain ⟨complete, segmented, asks, passes⟩ := send_of_segmented_response (π := Loopback)
  have response : Rtu.Conforming (countedReply 7).bytes := @Rtu.Conforming.counted 0x03 [0, 7] (by decide) (by decide)
  refine ⟨(complete response).1 6 (by decide), ?_, ?_, ?_⟩
  · obtain ⟨ok, consumed, rest⟩ := @segmented threeSegments (readRegister 0) (countedReply 7)
      (Rtu.encode 1 ⟨[0x03, 0, 0, 0, 1], by decide⟩) [1, 3] (by decide) response (by decide +kernel) (by decide +kernel)
      (by decide +kernel)
      ⟨4, .inr (by decide), ⟨by decide +kernel, by decide +kernel, by decide +kernel⟩, by decide +kernel⟩
    exact ⟨ok, consumed, rest⟩
  · obtain ⟨readings, recorded, asked⟩ := asks threeSegments (readRegister 0)
    exact ⟨readings, recorded.trans (List.append_nil _), asked⟩
  · obtain ⟨readings, recorded, asked⟩ := @passes 0 0 0 threeSegments.stream _ _ .none
    exact ⟨readings, recorded.trans (List.append_nil _), asked⟩

end RtuLink

end Modbus
