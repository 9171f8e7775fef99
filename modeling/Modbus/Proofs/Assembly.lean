import Modbus.Pdu.Assembly

/-! How a message comes out of its parts. As long as they fit they are laid one behind the other; the first part that
does not fit decides what is built, and it leaves nothing of itself behind. -/
namespace Modbus.Pdu

open Protocol (maxPduSize)

/-- The error of a part for which there is no room behind `size` bytes. -/
def Part.overflow (size : Nat) : Part → Error
  | data bytes => .pduWouldExceed size bytes.length
  | _ => .pduFull

theorem Part.kind_overflow (part : Part) (size : Nat) :
    (part.overflow size).kind = match part with
      | data _ => .wouldExceedCapacity
      | _ => .bufferFull := by
  cases part <;> rfl

/-- All kinds of parts are alike in this: the whole part is written or none of it. -/
theorem Buffer.append_eq (b : Buffer) (part : Part) :
    b.append part =
      if fits : b.size + part.bytes.length ≤ maxPduSize then
        .ok ⟨overwrite b.store b.size part.bytes, b.size + part.bytes.length, fits⟩
      else .error (part.overflow b.size) := by
  cases part <;> rfl

namespace Builder

/-- No part has failed yet, and the message has come this far. -/
structure Holds (b : Builder) (bytes : List UInt8) : Prop where
  going : b.error? = none
  bytes : b.buffer.bytes = bytes

theorem holds_empty : Holds {} [] := ⟨rfl, Buffer.bytes_empty⟩

variable {b : Builder} {bytes : List UInt8} {part : Part}

theorem Holds.size (h : b.Holds bytes) : b.buffer.size = bytes.length := by
  rw [← h.bytes, Buffer.length_bytes]

theorem Holds.add (h : b.Holds bytes) (fits : (bytes ++ part.bytes).length ≤ maxPduSize) :
    (b.add part).Holds (bytes ++ part.bytes) := by
  rw [List.length_append, ← h.size] at fits
  have done := (b.buffer.append_eq part).trans (dif_pos fits)
  rw [Builder.add, h.going, done]
  exact ⟨rfl, by rw [Buffer.bytes_of_append done, h.bytes]⟩

theorem Holds.add_overflow (h : b.Holds bytes) (beyond : maxPduSize < (bytes ++ part.bytes).length) :
    b.add part = { b with error? := some (part.overflow bytes.length) } := by
  rw [List.length_append, ← h.size] at beyond
  have refused := (b.buffer.append_eq part).trans (dif_neg (Nat.not_le_of_lt beyond))
  rw [Builder.add, h.going, refused, h.size]

theorem Holds.build (h : b.Holds bytes) : ∃ p, b.build = .ok p ∧ p.bytes = bytes :=
  ⟨b.buffer.toPdu, by rw [Builder.build, h.going], h.bytes⟩

/-- Parts that fit are laid one behind the other. -/
theorem Holds.addAll (h : b.Holds bytes) (parts : List Part)
    (fits : (bytes ++ parts.flatMap Part.bytes).length ≤ maxPduSize) :
    (parts.foldl Builder.add b).Holds (bytes ++ parts.flatMap Part.bytes) := by
  induction parts generalizing b bytes with
  | nil => simpa using h
  | cons part parts ih =>
    rw [List.flatMap_cons, ← List.append_assoc] at fits ⊢
    have room : (bytes ++ part.bytes).length ≤ maxPduSize :=
      Nat.le_trans (List.prefix_append _ _).length_le fits
    exact ih (h.add room) fits

theorem addAll_of_error {e : Error} (failed : b.error? = some e) (parts : List Part) :
    parts.foldl Builder.add b = b := by
  induction parts with
  | nil => rfl
  | cons part parts ih => rw [List.foldl_cons, show b.add part = b by rw [add, failed], ih]

end Builder

/-- The part behind `before` is the first of some parts that does not fit in a message. -/
structure FirstOverflow (parts before : List Part) (part : Part) : Prop where
  here : before ++ [part] <+: parts
  fits : ∀ done, done <+: before → (done.flatMap Part.bytes).length ≤ maxPduSize
  beyond : maxPduSize < ((before ++ [part]).flatMap Part.bytes).length

theorem length_bytes_mono {done parts : List Part} (part_of : done <+: parts) :
    (done.flatMap Part.bytes).length ≤ (parts.flatMap Part.bytes).length := by
  obtain ⟨rest, rfl⟩ := part_of
  rw [List.flatMap_append, List.length_append]
  exact Nat.le_add_right _ _

theorem exists_firstOverflow_behind (before parts : List Part)
    (fits : (before.flatMap Part.bytes).length ≤ maxPduSize)
    (beyond : maxPduSize < ((before ++ parts).flatMap Part.bytes).length) :
    ∃ done part, FirstOverflow (before ++ parts) done part := by
  induction parts generalizing before with
  | nil =>
    rw [List.append_nil] at beyond
    exact absurd beyond (Nat.not_lt_of_le fits)
  | cons part parts ih =>
    rw [List.append_cons] at beyond ⊢
    by_cases room : ((before ++ [part]).flatMap Part.bytes).length ≤ maxPduSize
    · exact ih (before ++ [part]) room beyond
    · refine ⟨before, part, List.prefix_append _ _, fun done part_of => ?_, Nat.lt_of_not_le room⟩
      exact Nat.le_trans (length_bytes_mono part_of) fits

theorem exists_firstOverflow {parts : List Part} (beyond : maxPduSize < (parts.flatMap Part.bytes).length) :
    ∃ before part, FirstOverflow parts before part :=
  exists_firstOverflow_behind [] parts (Nat.zero_le _) beyond

/-- At the first part that does not fit a builder has all parts before it, and stays so. -/
theorem FirstOverflow.builder {parts before : List Part} {part : Part} (h : FirstOverflow parts before part) :
    let builder := parts.foldl Builder.add {}
    builder.buffer.bytes = before.flatMap Part.bytes ∧
      builder.error? = some (part.overflow (before.flatMap Part.bytes).length) := by
  obtain ⟨later, rfl⟩ := h.here
  have whole : (before.foldl Builder.add {}).Holds (before.flatMap Part.bytes) :=
    Builder.holds_empty.addAll before (h.fits before (List.prefix_refl _))
  have beyond := h.beyond
  rw [List.flatMap_append, List.flatMap_singleton] at beyond
  rw [List.append_assoc, List.foldl_append, List.singleton_append, List.foldl_cons, whole.add_overflow beyond,
    Builder.addAll_of_error rfl]
  exact ⟨whole.bytes, rfl⟩

theorem exists_assemble {parts : List Part} (fits : (parts.flatMap Part.bytes).length ≤ maxPduSize) :
    ∃ p, assemble parts = .ok p ∧ p.bytes = parts.flatMap Part.bytes :=
  (Builder.holds_empty.addAll parts fits).build

/-- A message is what its parts put on the wire, and there is one whenever that fits. -/
theorem assemble_eq_ok_iff {parts : List Part} {p : Pdu} :
    assemble parts = .ok p ↔ p.bytes = parts.flatMap Part.bytes := by
  constructor
  · intro built
    by_cases fits : (parts.flatMap Part.bytes).length ≤ maxPduSize
    · obtain ⟨q, same, bytes⟩ := exists_assemble fits
      obtain rfl := Except.ok.inj (built.symm.trans same)
      exact bytes
    · obtain ⟨before, part, overflow⟩ := exists_firstOverflow (Nat.lt_of_not_le fits)
      rw [assemble, Builder.build, overflow.builder.2] at built
      nomatch built
  · intro bytes
    obtain ⟨q, built, same⟩ := exists_assemble (bytes ▸ p.length_le)
    rw [built, Pdu.ext (same.trans bytes.symm)]

/-- A builder gives the message of its parts if each beginning of them fits in one. If one does not, it gives the error
of the first part for which there was no room, whatever came after it, and of that part no byte is written. -/
theorem build_until_overflow (parts : List Part) :
    let builder := parts.foldl Builder.add {}
    ((∀ done, done <+: parts → (done.flatMap Part.bytes).length ≤ maxPduSize) →
        ∃ p, builder.build = .ok p ∧ p.bytes = parts.flatMap Part.bytes) ∧
      ((∃ done, done <+: parts ∧ maxPduSize < (done.flatMap Part.bytes).length) →
        ∃ before part, FirstOverflow parts before part) ∧
      ∀ before part, FirstOverflow parts before part →
        let e := part.overflow (before.flatMap Part.bytes).length
        builder.build = .error e ∧ builder.buffer.bytes = before.flatMap Part.bytes ∧
          e.kind = match part with
            | .data _ => .wouldExceedCapacity
            | _ => .bufferFull := by
  intro builder
  refine ⟨fun fits => exists_assemble (fits parts (List.prefix_refl _)), ?_, ?_⟩
  · rintro ⟨done, part_of, beyond⟩
    exact exists_firstOverflow (Nat.lt_of_lt_of_le beyond (length_bytes_mono part_of))
  · intro before part overflow
    obtain ⟨bytes, failed⟩ := overflow.builder
    exact ⟨by rw [Builder.build, failed], bytes, part.kind_overflow _⟩

/-- One byte is left when a word comes. The byte that follows it would still fit. -/
theorem build_until_overflow_lastByte :
    let data := List.replicate 252 0xAA
    let parts : List Part := [.data data, .word 0x1234, .byte 0x01]
    FirstOverflow parts [.data data] (.word 0x1234) ∧ (data ++ [0x01]).length ≤ maxPduSize ∧
      (parts.foldl Builder.add {}).build = .error .pduFull ∧
        (parts.foldl Builder.add {}).buffer.bytes = data := by
  intro data parts
  have size : data.length = 252 := List.length_replicate
  have overflow : FirstOverflow parts [.data data] (.word 0x1234) := by
    refine ⟨⟨[.byte 0x01], rfl⟩, fun done part_of => Nat.le_trans (length_bytes_mono part_of) ?_, ?_⟩
    · simp [Part.bytes, size, maxPduSize]
    · simp [Part.bytes, size, maxPduSize]
  obtain ⟨refused, bytes, _⟩ := (build_until_overflow parts).2.2 _ _ overflow
  exact ⟨overflow, by simp [size, maxPduSize], refused, bytes.trans (List.append_nil data)⟩

/-- Empty data fits even behind a full message. -/
example (full : List UInt8) (size : full.length = 253) : ∃ p, assemble [.data full, .data []] = .ok p := by
  have fits : (([.data full, .data []] : List Part).flatMap Part.bytes).length ≤ maxPduSize := by
    simp [Part.bytes, size, maxPduSize]
  obtain ⟨p, built, -⟩ := exists_assemble fits
  exact ⟨p, built⟩

end Modbus.Pdu
