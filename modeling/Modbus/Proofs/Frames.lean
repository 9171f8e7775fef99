import Modbus.Link.Reception
import Modbus.Proofs.Answer

/-! Frames as a receiver sees them: what was encoded is decoded again, and each part of a frame tells that more is
to come, but never more than the frame has. -/
namespace Modbus

/-- No proper part of the frame is taken for a frame, and none asks for bytes past its end. -/
structure Framing.Delimits (framing : Framing) (frame : List UInt8) : Prop where
  complete : framing.need frame = .complete
  more : ∀ k < frame.length, ∃ count, framing.need (frame.take k) = .more count ∧ 0 < count ∧ k + count ≤ frame.length

namespace Mbap

variable {transactionId : UInt16} {unitId : UInt8} {pdu : Pdu}

theorem length_encode : (encode transactionId unitId pdu).length = headerSize + pdu.bytes.length := by
  simp only [encode, Word.bytes, List.length_append, List.length_cons, List.length_nil, headerSize]
  omega

theorem toNat_length (pdu : Pdu) : (UInt16.ofNat (1 + pdu.bytes.length)).toNat = 1 + pdu.bytes.length := by
  have fits : pdu.bytes.length ≤ 253 := pdu.length_le
  exact Word.toNat_ofNat (by omega)

theorem header?_eq_none_iff {frame : List UInt8} : header? frame = none ↔ frame.length < headerSize := by
  unfold headerSize
  match frame with
  | [] | [_] | [_, _] | [_, _, _] | [_, _, _, _] | [_, _, _, _, _] | [_, _, _, _, _, _] => simp [header?]
  | t₁ :: t₂ :: p₁ :: p₂ :: l₁ :: l₂ :: unitId :: rest =>
    simp only [header?, List.length_cons]
    exact iff_of_false nofun (by omega)

/-- The header stands in the first seven bytes of a frame and of every part that has them. -/
theorem header?_take {frame : List UInt8} {h : Header} (header : header? frame = some h) (k : Nat) :
    header? (frame.take k) = if k < headerSize then none else some h := by
  split
  · next short => exact header?_eq_none_iff.mpr (Nat.lt_of_le_of_lt (List.length_take_le ..) short)
  · next long =>
    obtain ⟨k, rfl⟩ := Nat.exists_eq_add_of_le' (Nat.le_of_not_lt long)
    unfold header? at header
    split at header
    · exact header
    · nomatch header

theorem header?_encode_append (rest : List UInt8) : header? (encode transactionId unitId pdu ++ rest) =
    some ⟨transactionId, 0, .ofNat (1 + pdu.bytes.length), unitId⟩ := by
  simp only [encode, Word.bytes, List.cons_append, List.nil_append, header?, Word.ofBytes_high_low]

theorem header?_encode : header? (encode transactionId unitId pdu) =
    some ⟨transactionId, 0, .ofNat (1 + pdu.bytes.length), unitId⟩ := by
  have whole := @header?_encode_append transactionId unitId pdu []
  rwa [List.append_nil] at whole

theorem header?_take_encode (k : Nat) : header? ((encode transactionId unitId pdu).take k) =
    if k < headerSize then none else some ⟨transactionId, 0, .ofNat (1 + pdu.bytes.length), unitId⟩ :=
  header?_take header?_encode k

theorem Header.lengthValid_iff {h : Header} : h.lengthValid = true ↔ 2 ≤ h.length.toNat ∧ h.length.toNat ≤ 254 := by
  rw [lengthValid, Bool.and_eq_true, decide_eq_true_eq, decide_eq_true_eq, UInt16.le_iff_toNat_le]
  rfl

theorem lengthValid_encode (pos : 0 < pdu.bytes.length) :
    (Header.mk transactionId 0 (.ofNat (1 + pdu.bytes.length)) unitId).lengthValid = true := by
  have fits : pdu.bytes.length ≤ 253 := pdu.length_le
  rw [Header.lengthValid_iff, toNat_length]
  omega

theorem frameSize_encode : (Header.mk transactionId 0 (.ofNat (1 + pdu.bytes.length)) unitId).frameSize =
    (encode transactionId unitId pdu).length := by
  rw [Header.frameSize, toNat_length, length_encode, headerSize]
  omega

/-- The header of an encoded message is in order, so only the size of the bytes decides. -/
theorem decode_of_header {bytes : List UInt8} (pos : 0 < pdu.bytes.length)
    (header : header? bytes = some ⟨transactionId, 0, .ofNat (1 + pdu.bytes.length), unitId⟩) :
    decode bytes =
      if bytes.length < (encode transactionId unitId pdu).length then
        .error (.mbapTruncated (encode transactionId unitId pdu).length bytes.length)
      else do
        let message ← Pdu.ofBytes ((bytes.take (encode transactionId unitId pdu).length).drop headerSize)
        return ⟨⟨transactionId, 0, .ofNat (1 + pdu.bytes.length), unitId⟩, message⟩ := by
  rw [decode, header]
  dsimp only
  rw [if_neg (fun h => h rfl), lengthValid_encode pos, frameSize_encode, Bool.not_true, if_neg Bool.false_ne_true]

theorem decode_encode_append (pos : 0 < pdu.bytes.length) (rest : List UInt8) :
    decode (encode transactionId unitId pdu ++ rest) =
      .ok ⟨⟨transactionId, 0, .ofNat (1 + pdu.bytes.length), unitId⟩, pdu⟩ := by
  have message : Pdu.ofBytes ((encode transactionId unitId pdu).drop headerSize) = .ok pdu :=
    Pdu.ofBytes_eq_ok_iff.mpr rfl
  have whole : ¬ (encode transactionId unitId pdu ++ rest).length < (encode transactionId unitId pdu).length := by
    rw [List.length_append]
    omega
  rw [decode_of_header pos (header?_encode_append rest), if_neg whole, List.take_left, message]
  rfl

theorem decode_encode (pos : 0 < pdu.bytes.length) :
    decode (encode transactionId unitId pdu) =
      .ok ⟨⟨transactionId, 0, .ofNat (1 + pdu.bytes.length), unitId⟩, pdu⟩ := by
  have whole := @decode_encode_append transactionId unitId pdu pos []
  rwa [List.append_nil] at whole

/-- A header that announces as many bytes as there are. Nothing but the length field of it counts. -/
theorem delimits_of_header? {frame : List UInt8} {h : Header} (header : header? frame = some h)
    (valid : h.lengthValid = true) (size : frame.length = h.frameSize) : Framing.mbap.Delimits frame := by
  have accepted : (!h.lengthValid) = false := by rw [valid, Bool.not_true]
  constructor
  · simp only [Framing.need, header, accepted, size, Nat.le_refl, if_true]
    rfl
  · intro k inside
    have part : (frame.take k).length = k := List.length_take_of_le (Nat.le_of_lt inside)
    have long : headerSize ≤ frame.length := by
      refine Nat.le_of_not_lt fun short => ?_
      rw [header?_eq_none_iff.mpr short] at header
      nomatch header
    by_cases short : k < headerSize
    · refine ⟨headerSize - k, ?_, by omega, by omega⟩
      simp only [Framing.need, header?_take header, if_pos short, part]
    · refine ⟨frame.length - k, ?_, by omega, by omega⟩
      rw [size] at inside
      simp only [Framing.need, header?_take header, if_neg short, accepted, size, part, if_neg (Nat.not_le_of_lt inside)]
      rfl

theorem delimits_encode (pos : 0 < pdu.bytes.length) : Framing.mbap.Delimits (encode transactionId unitId pdu) :=
  delimits_of_header? header?_encode (lengthValid_encode pos) frameSize_encode.symm

end Mbap

theorem Crc16.verify_append_trailer (body : List UInt8) : verify (body ++ trailer body) = true := by
  have size : (body ++ trailer body).length - 2 = body.length := by
    rw [List.length_append]
    exact Nat.add_sub_cancel ..
  rw [verify, size, List.drop_left, List.take_left, BEq.rfl, Bool.and_true, decide_eq_true_eq, List.length_append]
  exact Nat.le_add_left ..

namespace Rtu

variable {slave : UInt8} {pdu : Pdu}

theorem length_encode : (encode slave pdu).length = pdu.bytes.length + 3 := by
  simp [encode, Crc16.trailer]

theorem decode_encode (pos : 0 < pdu.bytes.length) : decode (encode slave pdu) = .ok ⟨slave, pdu⟩ := by
  have size := @length_encode slave pdu
  have fits : pdu.bytes.length ≤ 253 := pdu.length_le
  have body : (encode slave pdu).take ((encode slave pdu).length - 2) = slave :: pdu.bytes := by
    have count : (encode slave pdu).length - 2 = (slave :: pdu.bytes).length := by
      rw [size, List.length_cons]
      omega
    rw [count]
    exact List.take_left
  have checked : Crc16.verify (encode slave pdu) = true := Crc16.verify_append_trailer _
  have message : Pdu.ofBytes ((slave :: pdu.bytes).drop 1) = .ok pdu := Pdu.ofBytes_eq_ok_iff.mpr rfl
  have short : ¬ (encode slave pdu).length < minFrameSize := by unfold minFrameSize; omega
  have large : ¬ maxFrameSize < (encode slave pdu).length := by unfold maxFrameSize; omega
  rw [decode, if_neg short, if_neg large, checked, if_neg nofun, body, message]
  rfl

theorem expectedSize?_pair {a b c : UInt8} {rest : List UInt8} {size : Nat}
    (tells : expectedSize? (a :: b :: c :: rest) = some size) :
    expectedSize? [a, b] = none ∨ expectedSize? [a, b] = some size := by
  unfold expectedSize? at tells ⊢
  dsimp only at tells ⊢
  by_cases exception : FunctionCode.isException b = true
  · rw [if_pos exception] at tells ⊢
    exact .inr tells
  · rw [if_neg exception] at tells ⊢
    cases code : FunctionCode.ofByte? b with
    | none => exact .inl rfl
    | some f =>
      rw [code] at tells
      cases f with
      | writeSingleCoil | writeSingleRegister | writeMultipleCoils | writeMultipleRegisters => exact .inr tells
      | _ => exact .inl rfl

theorem need_of_expectedSize? {part : List UInt8} {size : Nat} (tells : expectedSize? part = some size)
    (most : size ≤ maxFrameSize) :
    Framing.rtu.need part = if size ≤ part.length then .complete else .more (size - part.length) := by
  unfold Framing.need
  rw [tells]
  dsimp only
  rw [if_neg (Nat.not_lt_of_le most)]

/-- A frame whose first bytes tell its size. The first two alone tell the same size or none. -/
theorem delimits_of_expectedSize? {frame : List UInt8} (tells : expectedSize? frame = some frame.length)
    (long : 5 ≤ frame.length) (most : frame.length ≤ maxFrameSize) : Framing.rtu.Delimits frame := by
  match frame with
  | [] | [_] | [_, _] => simp only [List.length_cons, List.length_nil] at long; omega
  | a :: b :: c :: rest =>
    -- Only the first three bytes count.
    have need (part : List UInt8) : Framing.rtu.need (a :: b :: c :: part) =
        if (a :: b :: c :: rest).length ≤ (a :: b :: c :: part).length then .complete
        else .more ((a :: b :: c :: rest).length - (a :: b :: c :: part).length) :=
      need_of_expectedSize? tells most
    constructor
    · rw [need, if_pos (Nat.le_refl _)]
    · intro k inside
      match k with
      | 0 => exact ⟨3, rfl, by omega, by omega⟩
      | 1 => exact ⟨2, rfl, by omega, by omega⟩
      | 2 =>
        have two : (a :: b :: c :: rest).take 2 = [a, b] := rfl
        rw [two]
        rcases expectedSize?_pair tells with none | same
        · refine ⟨1, ?_, by omega, by omega⟩
          unfold Framing.need
          rw [none]
          rfl
        · exact ⟨_, (need_of_expectedSize? same most).trans (if_neg (Nat.not_le_of_lt inside)),
            Nat.sub_pos_of_lt inside, Nat.le_of_eq (Nat.add_sub_of_le (Nat.le_of_lt inside))⟩
      | k + 3 =>
        have size : (rest.take k).length = k := by
          simp only [List.length_cons] at inside
          exact List.length_take_of_le (by omega)
        refine ⟨(a :: b :: c :: rest).length - (k + 3), ?_, by omega, by omega⟩
        rw [List.take_succ_cons, List.take_succ_cons, List.take_succ_cons, need]
        simp only [List.length_cons, size] at inside ⊢
        rw [if_neg (by omega)]

theorem expectedSize?_answer {f : FunctionCode} {bytes : List UInt8} (answer : Device.Answer f bytes)
    (rest : List UInt8) : expectedSize? (slave :: (bytes ++ rest)) = some (bytes.length + 3) := by
  have plain : ¬ FunctionCode.isException f.toByte = true := by rw [f.isException_toByte]; nofun
  have known := f.ofByte?_toByte
  cases answer with
  | refusal code => exact if_pos f.refusal_toByte.1
  | @cells payload read short =>
    have count : (UInt8.ofNat payload.length).toNat = payload.length :=
      UInt8.toNat_ofNat_of_lt' (Nat.lt_of_le_of_lt short (by decide))
    refine (if_neg plain).trans ?_
    rw [known]
    have whole : some (5 + (UInt8.ofNat payload.length).toNat) = some (payload.length + 5) := by
      rw [count, Nat.add_comm]
    cases f with
    | readCoils | readDiscreteInputs | readHoldingRegisters | readInputRegisters => exact whole
    | _ => nomatch read
  | echo write size =>
    refine (if_neg plain).trans ?_
    rw [known, List.length_cons, size]
    cases f with
    | writeSingleCoil | writeSingleRegister | writeMultipleCoils | writeMultipleRegisters => rfl
    | _ => nomatch write

theorem delimits_encode {f : FunctionCode} (answer : Device.Answer f pdu.bytes) :
    Framing.rtu.Delimits (encode slave pdu) := by
  have size := @length_encode slave pdu
  have fits : pdu.bytes.length ≤ 253 := pdu.length_le
  have long : 2 ≤ pdu.bytes.length := answer.two_le
  refine delimits_of_expectedSize? ?_ (by omega) (by unfold maxFrameSize; omega)
  rw [size]
  exact expectedSize?_answer answer _

end Rtu

end Modbus
