import Modbus.Proofs.Frames
import Modbus.Proofs.Request

/-! What decoders accept. A frame of TCP tells its own end: bytes behind it change nothing, and no part of it decodes. Of
both framings nothing decodes but what was encoded, so a frame is known by its ids and its message. -/
namespace Modbus

theorem Pdu.ofBytes_bind_eq_ok_iff {α : Type} {bytes : List UInt8} {make : Pdu → α} {x : α} :
    (do return make (← ofBytes bytes) : Except Error α) = .ok x ↔ ∃ p : Pdu, p.bytes = bytes ∧ make p = x := by
  constructor
  · intro ok
    cases message : ofBytes bytes with
    | error e =>
      rw [message] at ok
      nomatch ok
    | ok p =>
      rw [message] at ok
      exact ⟨p, ofBytes_eq_ok_iff.mp message, Except.ok.inj ok⟩
  · rintro ⟨p, same, rfl⟩
    rw [ofBytes_eq_ok_iff.mpr same]
    rfl

namespace Mbap

variable {transactionId : UInt16} {unitId : UInt8} {pdu : Pdu} {frame : List UInt8} {adu : Adu}

/-- A header stands for the seven bytes that it was read from. -/
theorem exists_of_header? {h : Header} (header : header? frame = some h) : ∃ rest,
    frame = Word.bytes h.transactionId ++ Word.bytes h.protocolId ++ Word.bytes h.length ++ h.unitId :: rest := by
  unfold header? at header
  split at header
  · next rest =>
    obtain rfl := Option.some.inj header
    exact ⟨rest, by simp only [Word.bytes, Word.high_ofBytes, Word.low_ofBytes, List.cons_append, List.nil_append]⟩
  · exact absurd header.symm (Option.some_ne_none h)

/-- What was decoded: the header announces a message, and all of it is there. -/
structure Decoded (frame : List UInt8) (adu : Adu) : Prop where
  header : header? frame = some adu.header
  protocol : adu.header.protocolId = 0
  filled : 2 ≤ adu.header.length.toNat
  whole : adu.header.frameSize ≤ frame.length
  message : adu.pdu.bytes = (frame.take adu.header.frameSize).drop headerSize

theorem decoded_of_decode (ok : decode frame = .ok adu) : Decoded frame adu := by
  unfold decode at ok
  cases header : header? frame with
  | none =>
    rw [header] at ok
    nomatch ok
  | some h =>
    rw [header] at ok
    dsimp only at ok
    rw [Request.guard_eq_ok_iff, Request.guard_eq_ok_iff, Request.guard_eq_ok_iff, Pdu.ofBytes_bind_eq_ok_iff] at ok
    obtain ⟨protocol, valid, whole, pdu, message, rfl⟩ := ok
    rw [Bool.not_eq_true, Bool.not_eq_false', Header.lengthValid_iff] at valid
    exact ⟨header, Decidable.not_not.mp protocol, valid.1, Nat.le_of_not_lt whole, message⟩

/-- What does not decode breaks the protocol: a header that announces too much is refused before its message. -/
theorem kind_of_decode {e : Error} (failed : decode frame = .error e) : e.kind = .protocol := by
  unfold decode at failed
  cases header : header? frame with
  | none =>
    rw [header] at failed
    cases failed
    rfl
  | some h =>
    rw [header] at failed
    dsimp only at failed
    split at failed
    · cases failed
      rfl
    split at failed
    · cases failed
      rfl
    case isFalse accepted =>
      split at failed
      · cases failed
        rfl
      · have valid : h.lengthValid = true := by simpa using accepted
        have most := (Header.lengthValid_iff.mp valid).2
        have fits : ((frame.take h.frameSize).drop headerSize).length ≤ Protocol.maxPduSize := by
          have taken := List.length_take_le h.frameSize frame
          rw [List.length_drop]
          unfold Header.frameSize headerSize Protocol.maxPduSize at *
          omega
        rw [Pdu.ofBytes, dif_pos fits] at failed
        nomatch failed

/-- Of the bytes that decode, those of the frame are what its ids and its message are encoded as. -/
theorem encode_of_decode (ok : decode frame = .ok adu) :
    encode adu.header.transactionId adu.header.unitId adu.pdu = frame.take (6 + adu.header.length.toNat) := by
  obtain ⟨header, protocol, filled, whole, message⟩ := decoded_of_decode ok
  obtain ⟨rest, bytes⟩ := exists_of_header? header
  have size : adu.header.frameSize = adu.header.length.toNat - 1 + headerSize := by
    unfold Header.frameSize headerSize
    omega
  have start : frame.take adu.header.frameSize = Word.bytes adu.header.transactionId ++
      Word.bytes adu.header.protocolId ++ Word.bytes adu.header.length ++
        adu.header.unitId :: rest.take (adu.header.length.toNat - 1) := by
    rw [size, bytes]
    rfl
  have payload : adu.pdu.bytes = rest.take (adu.header.length.toNat - 1) := by
    rw [message, start]
    rfl
  have announced : UInt16.ofNat (1 + adu.pdu.bytes.length) = adu.header.length := by
    have there : frame.length = rest.length + headerSize := congrArg List.length bytes
    rw [payload, List.length_take_of_le (by omega), Nat.add_sub_of_le (Nat.le_of_succ_le filled), UInt16.ofNat_toNat]
  calc encode adu.header.transactionId adu.header.unitId adu.pdu
    _ = frame.take adu.header.frameSize := by rw [encode, announced, payload, start, protocol]
    _ = frame.take (6 + adu.header.length.toNat) := rfl

/-- A part of a frame does not decode; it is too short for a header or lacks a part of the message. -/
theorem decode_take_encode (pos : 0 < pdu.bytes.length) {k : Nat}
    (inside : k < (encode transactionId unitId pdu).length) :
    decode ((encode transactionId unitId pdu).take k) = .error (if k < headerSize then .mbapTooShort k
      else .mbapTruncated (encode transactionId unitId pdu).length k) := by
  have size : ((encode transactionId unitId pdu).take k).length = k := List.length_take_of_le (Nat.le_of_lt inside)
  have header := @header?_take_encode transactionId unitId pdu k
  by_cases short : k < headerSize
  · rw [if_pos short] at header
    rw [decode, header, if_pos short, size]
  · rw [if_neg short] at header
    rw [decode_of_header pos header, if_neg short, size, if_pos inside]

theorem isComplete_encode_append (rest : List UInt8) :
    isComplete (encode transactionId unitId pdu ++ rest) = true := by
  rw [isComplete, expectedSize?, header?_encode_append, Option.map_some, Option.any_some, decide_eq_true_eq,
    frameSize_encode, List.length_append]
  exact Nat.le_add_right ..

theorem isComplete_take_encode {k : Nat} (inside : k < (encode transactionId unitId pdu).length) :
    isComplete ((encode transactionId unitId pdu).take k) = false := by
  have size : ((encode transactionId unitId pdu).take k).length = k := List.length_take_of_le (Nat.le_of_lt inside)
  rw [isComplete, expectedSize?, header?_take_encode]
  split
  · rfl
  · rw [Option.map_some, Option.any_some, frameSize_encode, size]
    exact decide_eq_false (Nat.not_le_of_lt inside)

/-- Encoding and decoding undo each other, and a frame needs no mark of its end. With a message in it, it decodes to what
it was made of whatever follows it, it counts as complete from its last byte on, and no part of it decodes. What decodes
begins with the frame of the ids and the message that were found in it. -/
theorem encode_self_delimiting :
    (∀ (transactionId : UInt16) (unitId : UInt8) (pdu : Pdu), 0 < pdu.bytes.length →
      let frame := encode transactionId unitId pdu
      (∀ tail, isComplete (frame ++ tail) = true ∧ ∃ length : UInt16, length.toNat = 1 + pdu.bytes.length ∧
        decode (frame ++ tail) = .ok ⟨⟨transactionId, 0, length, unitId⟩, pdu⟩) ∧
      ∀ k < frame.length, isComplete (frame.take k) = false ∧ decode (frame.take k) =
        .error (if k < headerSize then .mbapTooShort k else .mbapTruncated frame.length k)) ∧
    ∀ (frame : List UInt8) (adu : Adu), decode frame = .ok adu →
      encode adu.header.transactionId adu.header.unitId adu.pdu = frame.take (6 + adu.header.length.toNat) := by
  refine ⟨fun transactionId unitId pdu pos => ⟨fun tail => ?_, fun k inside => ?_⟩, fun frame adu ok => ?_⟩
  · exact ⟨isComplete_encode_append tail, _, toNat_length pdu, decode_encode_append pos tail⟩
  · exact ⟨isComplete_take_encode inside, decode_take_encode pos inside⟩
  · exact encode_of_decode ok

/-- The largest frame with a byte behind it and without its last byte, and a short frame with the next one behind it. -/
theorem encode_self_delimiting_largest :
    let largest : Pdu := ⟨List.replicate 253 0xFF, Nat.le_of_eq List.length_replicate⟩
    let frame := encode 0xFFFF 0x11 largest
    let two : List UInt8 := [0, 1, 0, 0, 0, 3, 0x11, 0x83, 0x02, 0, 2, 0, 0]
    (∃ length : UInt16, length.toNat = 254 ∧ decode (frame ++ [0]) = .ok ⟨⟨0xFFFF, 0, length, 0x11⟩, largest⟩) ∧
      isComplete (frame.take 259) = false ∧ decode (frame.take 259) = .error (.mbapTruncated 260 259) ∧
        ∃ adu, decode two = .ok adu ∧
          encode adu.header.transactionId adu.header.unitId adu.pdu = two.take (6 + adu.header.length.toNat) := by
  intro largest frame two
  have refusal : decode two = .ok ⟨⟨1, 0, 3, 0x11⟩, ⟨[0x83, 0x02], by decide⟩⟩ := rfl
  have long : largest.bytes.length = 253 := List.length_replicate
  have size : frame.length = 260 := by rw [length_encode, long]; rfl
  obtain ⟨whole, part⟩ := encode_self_delimiting.1 0xFFFF 0x11 largest (by rw [long]; decide)
  obtain ⟨_, length, announced, decoded⟩ := whole [0]
  obtain ⟨lacking, truncated⟩ := part 259 (Nat.lt_of_lt_of_eq (by decide) size.symm)
  rw [long] at announced
  rw [if_neg (by decide), size] at truncated
  exact ⟨⟨length, announced, decoded⟩, lacking, truncated, _, refusal, encode_self_delimiting.2 two _ refusal⟩

end Mbap

theorem Crc16.exists_of_verify {frame : List UInt8} (checked : verify frame = true) :
    ∃ body, frame = body ++ trailer body := by
  rw [verify, Bool.and_eq_true, beq_iff_eq] at checked
  refine ⟨frame.take (frame.length - 2), ?_⟩
  rw [← checked.2, List.take_append_drop]

namespace Rtu

variable {frame : List UInt8} {adu : Adu}

theorem encode_of_decode (ok : decode frame = .ok adu) :
    0 < adu.pdu.bytes.length ∧ encode adu.slave adu.pdu = frame := by
  unfold decode at ok
  rw [Request.guard_eq_ok_iff, Request.guard_eq_ok_iff, Request.guard_eq_ok_iff, Pdu.ofBytes_bind_eq_ok_iff] at ok
  obtain ⟨long, _, checked, pdu, message, rfl⟩ := ok
  obtain ⟨body, rfl⟩ := Crc16.exists_of_verify (by simpa using checked)
  have size : (body ++ Crc16.trailer body).length = body.length + 2 := List.length_append
  rw [size] at long
  rw [size, Nat.add_sub_cancel, List.take_left] at message
  cases body with
  | nil => exact absurd (by decide) long
  | cons slave bytes =>
    have same : pdu.bytes = bytes := message
    refine ⟨?_, congrArg (fun bytes => slave :: bytes ++ Crc16.trailer (slave :: bytes)) same⟩
    simp only [List.length_cons, minFrameSize] at long
    rw [same]
    omega

theorem kind_of_decode {e : Error} (failed : decode frame = .error e) : e.kind = .protocol := by
  unfold decode at failed
  split at failed
  · cases failed
    rfl
  split at failed
  · cases failed
    rfl
  case isFalse most =>
    split at failed
    · cases failed
      rfl
    · have fits : ((frame.take (frame.length - 2)).drop 1).length ≤ Protocol.maxPduSize := by
        have taken := List.length_take_le (frame.length - 2) frame
        rw [List.length_drop]
        unfold maxFrameSize at most
        unfold Protocol.maxPduSize
        omega
      rw [Pdu.ofBytes, dif_pos fits] at failed
      nomatch failed

/-- A frame decodes exactly if it is the encoding of what it decodes to, and that has a message. -/
theorem decode_eq_ok_iff_encode : decode frame = .ok adu ↔
    0 < adu.pdu.bytes.length ∧ encode adu.slave adu.pdu = frame := by
  constructor
  · exact encode_of_decode
  · rintro ⟨pos, rfl⟩
    exact decode_encode pos

end Rtu

end Modbus
