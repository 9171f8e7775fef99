import Mathlib.Data.List.Basic
import Modbus.Proofs.Direct
import Modbus.Proofs.Verdict

/-! Writes over any link. A write is one request, and it is done exactly if the response is the beginning of the request
itself: function code, address, and the word that a device repeats. -/
namespace Modbus

/-- The word that a write asks to have repeated stands right behind its address, be it the value or the quantity. -/
theorem Request.take_wire {r : Request} (acceptable : r.Acceptable) (write : FunctionCode.isWrite r.function = true) :
    r.wire.take 5 = r.echo := by
  unfold Acceptable at acceptable
  unfold FunctionCode.isWrite at write
  unfold wire echo echoedWord
  cases code : FunctionCode.ofByte? r.function with
  | none =>
    rw [code] at write
    cases write
  | some f =>
    rw [code] at acceptable write
    cases f with
    | writeSingleCoil | writeSingleRegister =>
      obtain ⟨high, low, word⟩ := List.length_eq_two.mp (show r.data.length = 2 from acceptable)
      simp [word, Word.bytes]
    | writeMultipleCoils | writeMultipleRegisters => simp [Word.bytes]
    | _ => cases write

namespace Assignment

theorem isWrite_request (s : Assignment) (slave : UInt8) : FunctionCode.isWrite (s.request slave).function = true := by
  cases s <;> rfl

variable {σ : Type} [Link σ]

/-- Whatever the link does, a write of an admissible count hands over one request. It succeeds exactly if the answer is
the first five bytes of the message of that request; the link's own error is passed on, and any other answer is an error
of the kind that its first two bytes tell. -/
theorem perform_write_any_link (s : Assignment) (slave : UInt8) (admissible : s.Admissible) (c : Client σ) :
    let r := s.request slave
    let answer := (Link.send c.link r).1
    let done := c.perform (s.write slave)
    done.2.sent = c.sent ++ [r] ∧ done.2.link = (Link.send c.link r).2 ∧
      ∃ message, r.toPdu = .ok message ∧
        (done.1 = .ok () ↔ ∃ response, answer = .ok response ∧ response.bytes = message.bytes.take 5) ∧
        (∀ e, answer = .error e → done.1 = .error e) ∧
        ∀ response, answer = .ok response → response.bytes ≠ message.bytes.take 5 →
          ∃ e, done.1 = .error e ∧ e.kind = Response.faultKind s.code.toByte response.bytes := by
  intro r answer done
  obtain ⟨message, accepted, wire⟩ := Request.exists_toPdu (s.acceptable_request slave admissible)
  have echo : message.bytes.take 5 = r.echo :=
    (congrArg (List.take 5) wire).trans
      (Request.take_wire (s.acceptable_request slave admissible) (s.isWrite_request slave))
  have plain : FunctionCode.isException r.function = false := by
    rw [s.function_request]
    exact s.code.isException_toByte
  have confirmed {response : Pdu} :
      Response.checkEcho response r.function r.address r.echoedWord = .ok () ↔
        response.bytes = message.bytes.take 5 := by
    rw [Response.checkEcho_eq_ok_iff, echo]
    exact and_iff_right plain
  let verdict (response : Pdu) := Response.checkEcho response r.function r.address r.echoedWord
  have asked : done = c.perform (Client.ask r verdict) := by
    rw [← Client.write_eq_ask, ← s.write_eq slave admissible]
  obtain ⟨outcome, link, sent⟩ := Client.perform_ask c r verdict
  rw [← asked] at outcome link sent
  refine ⟨sent, link, message, accepted, ?_, ?_, ?_⟩
  · rw [asked, Client.perform_ask_eq_ok_iff]
    simp only [verdict, confirmed]
    rfl
  · intro e failed
    exact outcome.trans (congrArg (· >>= verdict) failed)
  · intro response heard different
    have judged : done.1 = verdict response := outcome.trans (congrArg (· >>= verdict) heard)
    cases refused : verdict response with
    | ok x => exact absurd (confirmed.mp refused) different
    | error e => exact ⟨e, judged.trans refused, s.function_request slave ▸ Response.kind_of_checkEcho refused⟩

end Assignment

/-- A link that has one outcome for every request. -/
structure Repeating where
  outcome : Except Error Pdu

namespace Repeating

instance : Link Repeating where
  send l _ := (l.outcome, l)
  isConnected _ := true
  close l := l
  stats _ := {}
  elapse l _ := l

end Repeating

/-- Two registers from address 3 on. -/
def Assignment.registerPair : Assignment := .registers 3 [7, 8]

/-- The answer that repeats address and count confirms them. The same five bytes and one more are a protocol error, two
bytes with the high bit an exception. -/
theorem Assignment.perform_write_registerPair :
    let outcome (answer : Pdu) := (({ link := ⟨.ok answer⟩ } : Client Repeating).perform (registerPair.write 1)).1
    registerPair.Admissible ∧ outcome ⟨[0x10, 0, 3, 0, 2], by decide⟩ = .ok () ∧
      (∃ e, outcome ⟨[0x10, 0, 3, 0, 2, 0], by decide⟩ = .error e ∧ e.kind = .protocol) ∧
      ∃ e, outcome ⟨[0x90, 4], by decide⟩ = .error e ∧ e.kind = .exception := by
  have admissible : registerPair.Admissible := ⟨by decide, by decide⟩
  have message {pdu : Pdu} (accepted : (registerPair.request 1).toPdu = .ok pdu) :
      pdu.bytes.take 5 = [0x10, 0, 3, 0, 2] := by
    rw [(Request.toPdu_eq_ok_iff.mp accepted).2]
    decide
  have any (answer : Pdu) := perform_write_any_link registerPair 1 admissible ({ link := ⟨.ok answer⟩ } : Client Repeating)
  refine ⟨admissible, ?_, ?_, ?_⟩
  · obtain ⟨-, -, pdu, accepted, confirmed, -, -⟩ := any ⟨[0x10, 0, 3, 0, 2], by decide⟩
    exact confirmed.mpr ⟨_, rfl, (message accepted).symm⟩
  · obtain ⟨-, -, pdu, accepted, -, -, refused⟩ := any ⟨[0x10, 0, 3, 0, 2, 0], by decide⟩
    exact refused _ rfl (by rw [message accepted]; decide)
  · obtain ⟨-, -, pdu, accepted, -, -, refused⟩ := any ⟨[0x90, 4], by decide⟩
    exact refused _ rfl (by rw [message accepted]; decide)

end Modbus
