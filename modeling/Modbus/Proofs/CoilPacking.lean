import Mathlib.Algebra.GroupWithZero.Nat
import Modbus.Proofs.Acceptance

/-! Coils on the wire and back. What is packed is read as it was, and what is read is packed into the bytes it was read
from, up to the bits that nobody asked for: spare bytes behind and the high bits of the last byte. -/
namespace Modbus

namespace Bits

theorem value_take (bits : List Bool) (n : Nat) : value (bits.take n) = value bits % 2 ^ n := by
  apply Nat.eq_of_testBit_eq
  intro i
  rw [Nat.testBit_mod_two_pow, testBit_value, testBit_value, List.getD_eq_getElem?_getD, List.getD_eq_getElem?_getD,
    List.getElem?_take]
  split
  case isTrue low => simp [low]
  case isFalse high => simp [high]

/-- Bits that were unpacked make the same bytes again, but for those that are left out at the end. -/
theorem getElem?_pack_unpack {bytes : List UInt8} {count i : Nat} (there : count ≤ 8 * bytes.length)
    (inside : 8 * i < count) :
    (pack ((unpack bytes).take count))[i]? = bytes[i]?.map fun byte => .ofNat (byte.toNat % 2 ^ (count - 8 * i)) := by
  have within : i < bytes.length := by omega
  have eight : (((unpack bytes).take count).drop (8 * i)).take 8 = (ofByte bytes[i]).take (count - 8 * i) := by
    rw [List.drop_take, drop_unpack, List.drop_eq_getElem_cons within, unpack_cons, List.take_take, Nat.min_comm,
      ← List.take_take, List.take_left' (length_ofByte _)]
  rw [getElem?_pack (by rw [List.length_take, length_unpack]; omega), eight, value_take, value_ofByte,
    List.getElem?_eq_getElem within, Option.map_some]

/-- A byte of which all bits are wanted is kept, and of the last one only those that are. -/
theorem kept_of_byte (byte : UInt8) {wanted i : Nat} (inside : i < (wanted + 7) / 8) :
    UInt8.ofNat (byte.toNat % 2 ^ (wanted - 8 * i)) =
      if 8 * i + 8 ≤ wanted then byte else .ofNat (byte.toNat % 2 ^ (wanted % 8)) := by
  split
  case isTrue whole =>
    have small : byte.toNat < 2 ^ (wanted - 8 * i) :=
      Nat.lt_of_lt_of_le byte.toNat_lt (Nat.pow_le_pow_right (by decide) (by omega))
    rw [Nat.mod_eq_of_lt small, UInt8.ofNat_toNat]
  case isFalse last => rw [show wanted - 8 * i = wanted % 8 by omega]

end Bits

namespace Response

variable {p : Pdu} {function : UInt8} {quantity : UInt16} {values : List Bool}

theorem bits_eq_ok_iff : bits p function quantity = .ok values ↔
    FunctionCode.isException function = false ∧ ∃ count data, p.bytes = function :: count :: data ∧
      ((quantity.toNat + 7) / 8 ≤ count.toNat ∧ count.toNat ≤ data.length) ∧
        (Bits.unpack data).take quantity.toNat = values :=
  Bank.coils.parse_eq_ok_iff_cells

theorem pack_of_bits (accepted : bits p function quantity = .ok values) :
    (Bits.pack values).length = (quantity.toNat + 7) / 8 ∧
      ∀ i < (quantity.toNat + 7) / 8, ∃ byte, p.bytes[2 + i]? = some byte ∧
        (Bits.pack values)[i]? = some (if 8 * i + 8 ≤ quantity.toNat then byte
          else .ofNat (byte.toNat % 2 ^ (quantity.toNat % 8))) := by
  obtain ⟨-, count, data, bytes, ⟨needed, there⟩, rfl⟩ := bits_eq_ok_iff.mp accepted
  have all : quantity.toNat ≤ 8 * data.length := by omega
  refine ⟨?_, fun i inside => ?_⟩
  · rw [Bits.length_pack, List.length_take, Bits.length_unpack, Nat.min_eq_left all, Bits.byteCount]
  · have within : i < data.length := by omega
    refine ⟨data[i], ?_, ?_⟩
    · rw [bytes, Nat.add_comm, List.getElem?_cons_succ, List.getElem?_cons_succ, List.getElem?_eq_getElem within]
    · rw [Bits.getElem?_pack_unpack all (by omega), List.getElem?_eq_getElem within, Option.map_some,
        Bits.kept_of_byte _ inside]

theorem bits_of_pack {function : UInt8} (most : values.length ≤ 2000) (plain : FunctionCode.isException function = false) :
    ∃ p, Pdu.ofBytes (function :: .ofNat (Bits.pack values).length :: Bits.pack values) = .ok p ∧
      bits p function (.ofNat values.length) = .ok values := by
  have fits : (function :: .ofNat (Bits.pack values).length :: Bits.pack values).length ≤ Protocol.maxPduSize := by
    rw [List.length_cons, List.length_cons, Bits.length_pack, Bits.byteCount, Protocol.maxPduSize]
    omega
  refine ⟨⟨_, fits⟩, dif_pos fits, bits_eq_ok plain ?_ most rfl⟩
  rw [Word.toNat_ofNat (by omega)]

/-- Packing and reading are inverse. Any coils that one response can hold are read back from it as they were; and of any
response that is accepted, the coils that were read pack into as many bytes as they need, which are those of the response
with the bits behind the last coil cleared. -/
theorem bits_inverse_pack :
    (∀ (values : List Bool) (function : UInt8), values.length ≤ 2000 → function < 0x80 →
      ∃ p, Pdu.ofBytes (function :: .ofNat (Bits.pack values).length :: Bits.pack values) = .ok p ∧
        bits p function (.ofNat values.length) = .ok values) ∧
      ∀ p function quantity values, bits p function quantity = .ok values →
        (Bits.pack values).length = (quantity.toNat + 7) / 8 ∧
          ∀ i < (quantity.toNat + 7) / 8, ∃ byte, p.bytes[2 + i]? = some byte ∧
            (Bits.pack values)[i]? = some (if 8 * i + 8 ≤ quantity.toNat then byte
              else .ofNat (byte.toNat % 2 ^ (quantity.toNat % 8))) := by
  refine ⟨fun values function most low => ?_, fun p function quantity values => pack_of_bits⟩
  exact bits_of_pack most (decide_eq_false (UInt8.not_le.mpr low))

/-- Ten coils, two of them in a last byte with six ones that nobody asked for, and one byte more behind it. -/
theorem bits_inverse_pack_paddedAnswer :
    let values := [true, false, true, true, false, false, true, true, true, true]
    let p : Pdu := ⟨[0x01, 3, 0xCD, 0xFF, 0x55], by decide⟩
    values.length ≤ 2000 ∧ (0x01 : UInt8) < 0x80 ∧ bits p 0x01 10 = .ok values ∧
      (Bits.pack values).length = 2 ∧ (Bits.pack values)[0]? = some 0xCD ∧ (Bits.pack values)[1]? = some 0x03 ∧
      ∃ q, Pdu.ofBytes (0x01 :: .ofNat (Bits.pack values).length :: Bits.pack values) = .ok q ∧
        bits q 0x01 10 = .ok values := by
  intro values p
  have accepted : bits p 0x01 10 = .ok values := rfl
  obtain ⟨size, bytes⟩ := bits_inverse_pack.2 p 0x01 10 values accepted
  obtain ⟨first, here, kept⟩ := bytes 0 (by decide)
  obtain ⟨last, behind, cleared⟩ := bytes 1 (by decide)
  obtain rfl := Option.some.inj here
  obtain rfl := Option.some.inj behind
  exact ⟨by decide, by decide, accepted, size, kept, cleared, bits_inverse_pack.1 values 0x01 (by decide) (by decide)⟩

end Response

end Modbus
