import Modbus.Proofs.CoilPacking

/-! Two ways to read one response. The strict one knows how much was asked for and refuses what does not match; the
lenient one takes what is there. Whatever the strict one reads is also read by the lenient one, and registers that were
announced as they were asked for and have all come are read alike. -/
namespace Modbus.Response

variable {p : Pdu} {function first count : UInt8} {data : List UInt8} {quantity : UInt16} {words : List UInt16}

theorem registers_eq_ok_iff : registers p function quantity = .ok words ↔
    FunctionCode.isException function = false ∧ ∃ count data, p.bytes = function :: count :: data ∧
      (count.toNat = 2 * quantity.toNat ∧ 2 * quantity.toNat ≤ data.length) ∧
        Word.ofPairs (data.take (2 * quantity.toNat)) = words :=
  Bank.holdingRegisters.parse_eq_ok_iff_cells

theorem values_cons (bytes : p.bytes = first :: count :: data) :
    values p function =
      if first ≠ function then .error (.functionMismatch function first)
      else if FunctionCode.isBitRead function then .ok ((data.take count.toNat).map UInt8.toUInt16)
      else if FunctionCode.isRead function then .ok (Word.ofPairs (data.take count.toNat))
      else .error (.unsupportedFunction function) := by
  rw [values, bytes]

theorem values_of_register_read (read : function = 0x03 ∨ function = 0x04) (bytes : p.bytes = first :: count :: data) :
    values p function = .ok words ↔ first = function ∧ Word.ofPairs (data.take count.toNat) = words := by
  have isBitRead : FunctionCode.isBitRead function = false := by rcases read with rfl | rfl <;> rfl
  have isRead : FunctionCode.isRead function = true := by rcases read with rfl | rfl <;> rfl
  rw [values_cons bytes, isBitRead, isRead, Request.guard_eq_ok_iff, Decidable.not_not]
  exact and_congr_right fun _ => Iff.of_eq (Except.ok.injEq _ _)

theorem values_of_bit_read (read : function = 0x01 ∨ function = 0x02) (bytes : p.bytes = function :: count :: data) :
    values p function = .ok ((data.take count.toNat).map UInt8.toUInt16) := by
  have isBitRead : FunctionCode.isBitRead function = true := by rcases read with rfl | rfl <;> rfl
  rw [values_cons bytes, isBitRead, if_neg (not_not_intro rfl)]
  rfl

theorem values_of_registers (read : function = 0x03 ∨ function = 0x04)
    (accepted : registers p function quantity = .ok words) : values p function = .ok words := by
  obtain ⟨-, count, data, bytes, ⟨announced, -⟩, same⟩ := registers_eq_ok_iff.mp accepted
  exact (values_of_register_read read bytes).mpr ⟨rfl, announced ▸ same⟩

theorem registers_of_values (read : function = 0x03 ∨ function = 0x04) (taken : values p function = .ok words)
    (bytes : p.bytes = first :: count :: data) (announced : count.toNat = 2 * quantity.toNat)
    (there : count.toNat ≤ data.length) : registers p function quantity = .ok words := by
  obtain ⟨rfl, same⟩ := (values_of_register_read read bytes).mp taken
  have plain : FunctionCode.isException first = false := by rcases read with rfl | rfl <;> rfl
  exact registers_eq_ok_iff.mpr ⟨plain, count, data, bytes, ⟨announced, announced ▸ there⟩, announced ▸ same⟩

/-- The lenient reader gives whole bytes, and among them all that the strict one looks at. -/
theorem values_of_bits {coils : List Bool} (read : function = 0x01 ∨ function = 0x02)
    (accepted : bits p function quantity = .ok coils) :
    ∃ bytes : List UInt8, values p function = .ok (bytes.map UInt8.toUInt16) ∧ coils <+: Bits.unpack bytes := by
  obtain ⟨-, count, data, bytes, ⟨needed, there⟩, rfl⟩ := bits_eq_ok_iff.mp accepted
  refine ⟨data.take count.toNat, values_of_bit_read read bytes, ?_⟩
  have inside : quantity.toNat ≤ (Bits.unpack (data.take count.toNat)).length := by
    rw [Bits.length_unpack, List.length_take]
    omega
  rw [← List.take_append_drop count.toNat data, Bits.unpack_append, List.take_append_of_le_length inside,
    List.take_append_drop]
  exact List.take_prefix _ _

/-- What the strict readers accept the lenient one reads alike, registers word by word and coils from the bytes it gives.
The other way round registers are read alike if they were announced as they are asked for and none is missing. -/
theorem values_agree (p : Pdu) (quantity : UInt16) :
    (∀ function words, function = 0x03 ∨ function = 0x04 →
        (registers p function quantity = .ok words → values p function = .ok words) ∧
          ∀ first count data, values p function = .ok words → p.bytes = first :: count :: data →
            count.toNat = 2 * quantity.toNat → count.toNat ≤ data.length →
              registers p function quantity = .ok words) ∧
      ∀ function coils, function = 0x01 ∨ function = 0x02 → bits p function quantity = .ok coils →
        ∃ bytes : List UInt8, values p function = .ok (bytes.map UInt8.toUInt16) ∧ coils <+: Bits.unpack bytes := by
  refine ⟨fun function words read => ⟨values_of_registers read, ?_⟩, fun function coils => values_of_bits⟩
  intro first count data taken bytes announced there
  exact registers_of_values read taken bytes announced there

/-- Two registers with a byte behind them, and ten coils in a response of three bytes. -/
theorem values_agree_spareBytes :
    let answer : Pdu := ⟨[0x03, 4, 0x12, 0x34, 0x00, 0x07, 0xFF], by decide⟩
    let coils : Pdu := ⟨[0x01, 3, 0xCD, 0xFF, 0x55], by decide⟩
    registers answer 0x03 2 = .ok [0x1234, 7] ∧ values answer 0x03 = .ok [0x1234, 7] ∧
      ∃ bytes : List UInt8, values coils 0x01 = .ok (bytes.map UInt8.toUInt16) ∧
        [true, false, true, true, false, false, true, true, true, true] <+: Bits.unpack bytes := by
  intro answer coils
  have taken : values answer 0x03 = .ok [0x1234, 7] := rfl
  have strict : registers answer 0x03 2 = .ok [0x1234, 7] :=
    ((values_agree answer 2).1 0x03 _ (.inl rfl)).2 0x03 4 [0x12, 0x34, 0x00, 0x07, 0xFF] taken rfl rfl (by decide)
  exact ⟨strict, ((values_agree answer 2).1 0x03 _ (.inl rfl)).1 strict, (values_agree coils 10).2 0x01 _ (.inl rfl) rfl⟩

end Modbus.Response
