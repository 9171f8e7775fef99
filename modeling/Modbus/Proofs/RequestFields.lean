import Modbus.Proofs.Request

/-! What a message says of the request it was made from. Function code and address stand in front at fixed places, and
the function code tells what follows: the quantity, the payload, or both with the size of the payload between them. -/
namespace Modbus

theorem Word.bytes_inj {v w : UInt16} (same : bytes v = bytes w) : v = w := by
  have back := congrArg ofPairs same
  simpa [bytes, ofPairs] using back

namespace Request

variable {r s : Request}

theorem five_le_length_wire (acceptable : r.Acceptable) : 5 ≤ r.wire.length := by
  have two_le : 2 ≤ r.body.length := by
    rcases acceptable.cases with read | ⟨single, two⟩ | ⟨multiple, -⟩
    · exact Nat.le_of_eq (congrArg List.length (body_of_read read)).symm
    · exact Nat.le_of_eq ((congrArg List.length (body_of_single single)).trans two).symm
    · rw [body_of_multiple multiple, List.length_append]
      exact Nat.le_add_right 2 _
  rw [wire_eq, List.length_cons, List.length_append, Word.length_bytes]
  omega

/-- The size in front of a payload is not cut short. -/
theorem count_of_multiple (acceptable : r.Acceptable) (multiple : r.MultipleWrite) :
    (UInt8.ofNat r.data.length).toNat = r.data.length := by
  rcases acceptable.cases with read | ⟨-, two⟩ | ⟨-, small⟩
  · rcases multiple with code | code
    · rw [code] at read
      nomatch read
    · rw [code] at read
      nomatch read
  · rw [two]
    rfl
  · exact UInt8.toNat_ofNat_of_lt' (Nat.lt_of_le_of_lt small (by decide))

theorem fields_of_wire (same : r.wire = s.wire) :
    r.function = s.function ∧ r.address = s.address ∧ r.body = s.body := by
  rw [wire_eq, wire_eq] at same
  obtain ⟨function, rest⟩ := List.cons.inj same
  obtain ⟨address, body⟩ := List.append_inj rest rfl
  exact ⟨function, Word.bytes_inj address, body⟩

/-- Of two requests of one function code the bodies tell apart whatever is sent. -/
theorem sent_of_body (acceptable : r.Acceptable) (function : r.function = s.function) (same : r.body = s.body) :
    (¬ r.SingleWrite → r.quantity = s.quantity) ∧
      (¬ FunctionCode.isRead r.function = true → r.data = s.data) := by
  rcases acceptable.cases with read | ⟨single, -⟩ | ⟨multiple, -⟩
  · rw [body_of_read read, body_of_read (function ▸ read)] at same
    exact ⟨fun _ => Word.bytes_inj same, fun other => absurd read other⟩
  · have single' : s.SingleWrite := by
      unfold SingleWrite
      rwa [← function]
    rw [body_of_single single, body_of_single single'] at same
    exact ⟨fun other => absurd single other, fun _ => same⟩
  · have multiple' : s.MultipleWrite := by
      unfold MultipleWrite
      rwa [← function]
    rw [body_of_multiple multiple, body_of_multiple multiple'] at same
    obtain ⟨quantity, rest⟩ := List.append_inj same rfl
    exact ⟨fun _ => Word.bytes_inj quantity, fun _ => (List.cons.inj rest).2⟩

/-- A request has a message that fits, or it is at fault itself; the buffer is never what it fails by. A message tells
all that its kind of request sends: two requests with one message differ in nothing else, and the size in front of a
payload is that of the payload. -/
theorem toPdu_tells_request (r : Request) :
    ((r.Acceptable ∧ ∃ p, r.toPdu = .ok p ∧ 5 ≤ p.bytes.length ∧ p.bytes.length ≤ 253) ∨
        (¬ r.Acceptable ∧ ∃ e, r.toPdu = .error e ∧ (e.kind = .invalidFunction ∨ e.kind = .invalidData))) ∧
      ∀ p, r.toPdu = .ok p →
        (r.MultipleWrite → ∃ count payload,
          p.bytes = r.function :: (Word.bytes r.address ++ (Word.bytes r.quantity ++ count :: payload)) ∧
            count.toNat = payload.length) ∧
        ∀ s : Request, s.toPdu = .ok p →
          s.function = r.function ∧ s.address = r.address ∧ (¬ r.SingleWrite → s.quantity = r.quantity) ∧
            (¬ FunctionCode.isRead r.function = true → s.data = r.data) := by
  refine ⟨?_, fun p accepted => ?_⟩
  · by_cases acceptable : r.Acceptable
    · obtain ⟨p, accepted, bytes⟩ := exists_toPdu acceptable
      exact .inl ⟨acceptable, p, accepted, bytes ▸ five_le_length_wire acceptable, p.length_le⟩
    · refine .inr ⟨acceptable, ?_⟩
      cases outcome : r.toPdu with
      | ok p => exact absurd (toPdu_eq_ok_iff.mp outcome).1 acceptable
      | error e => exact ⟨e, rfl, kind_of_toPdu outcome⟩
  · obtain ⟨acceptable, bytes⟩ := toPdu_eq_ok_iff.mp accepted
    refine ⟨fun multiple => ?_, fun s accepted' => ?_⟩
    · refine ⟨.ofNat r.data.length, r.data, ?_, ?_⟩
      · rw [bytes, wire_eq, body_of_multiple multiple]
      · exact count_of_multiple acceptable multiple
    · have same : r.wire = s.wire := bytes.symm.trans (toPdu_eq_ok_iff.mp accepted').2
      obtain ⟨function, address, body⟩ := fields_of_wire same
      obtain ⟨quantity, data⟩ := sent_of_body acceptable function body
      exact ⟨function.symm, address.symm, fun sent => (quantity sent).symm, fun sent => (data sent).symm⟩

/-- A coil set by two requests of different quantities, of which the message has neither. -/
theorem toPdu_tells_request_coil :
    let r : Request := ⟨1, 0x05, 7, 3, [0xFF, 0x00]⟩
    let s : Request := ⟨9, 0x05, 7, 8, [0xFF, 0x00]⟩
    let p : Pdu := ⟨[0x05, 0x00, 0x07, 0xFF, 0x00], by decide⟩
    r.toPdu = .ok p ∧ s.toPdu = .ok p ∧ r.quantity ≠ s.quantity ∧ s.address = r.address ∧ s.data = r.data := by
  intro r s p
  have accepted : r.toPdu = .ok p := toPdu_eq_ok_iff.mpr ⟨rfl, by decide⟩
  have accepted' : s.toPdu = .ok p := toPdu_eq_ok_iff.mpr ⟨rfl, by decide⟩
  obtain ⟨-, address, -, data⟩ := ((toPdu_tells_request r).2 p accepted).2 s accepted'
  exact ⟨accepted, accepted', by decide, address, data (by decide)⟩

end Request

end Modbus
