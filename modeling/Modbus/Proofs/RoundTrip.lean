import Mathlib.Data.List.Induction
import Modbus.Proofs.Layout

/-! Registers and typed values are two forms of one thing. For every type but bool, each list of as many registers as the
type takes is the layout of exactly one value, so that nothing is lost in either direction. -/
namespace Modbus

namespace ByteOrder

theorem length_spread (o : ByteOrder) (registers : List UInt16) :
    (o.spread registers).length = 2 * registers.length := by
  have pair (r : UInt16) : (o.split r).length = 2 := by
    unfold split
    split <;> rfl
  unfold spread
  rw [List.length_flatMap, List.map_congr_left fun r _ => pair r, List.map_const', List.sum_replicate_nat,
    length_arrange, Nat.mul_comm]

/-- A number has no other digits than those it was read from. -/
theorem digits_number (bytes : List UInt8) : digits bytes.length (number bytes) = bytes := by
  -- The last digit is the least significant one, so it is split off at the end of the list.
  induction bytes using List.reverseRecOn with
  | nil => rfl
  | append_singleton bytes b ih =>
    have := b.toNat_lt
    have front : (number bytes * 256 + b.toNat) / 256 = number bytes := by omega
    have last : UInt8.ofNat (number bytes * 256 + b.toNat) = b := by
      apply UInt8.toNat_inj.mp
      rw [UInt8.toNat_ofNat']
      omega
    rw [number_append_single, List.length_append, List.length_singleton, digits, front, ih, last]

theorem number_lt (bytes : List UInt8) : number bytes < 1 <<< (8 * bytes.length) := by
  have whole := number_digits bytes.length (number bytes)
  rw [digits_number] at whole
  rw [whole]
  exact Nat.mod_lt _ (by rw [Nat.one_shiftLeft]; exact Nat.two_pow_pos _)

theorem decode_lt (o : ByteOrder) (registers : List UInt16) : o.decode registers < 1 <<< (16 * registers.length) := by
  have bound := number_lt (o.spread registers)
  rwa [length_spread, ← Nat.mul_assoc] at bound

theorem encode_decode (o : ByteOrder) (registers : List UInt16) :
    o.encode registers.length (o.decode registers) = registers := by
  rw [encode, decode, ← length_spread o, digits_number, collect_spread]

end ByteOrder

namespace Value

variable {t : DataType} {registers : List UInt16}

theorem type_ofPattern (t : DataType) (n : Nat) : (ofPattern t n).type = t := by
  cases t <;> rfl

theorem pattern_ofPattern (numeric : t ≠ .bool) {n : Nat} (small : n < 1 <<< (16 * t.width)) :
    (ofPattern t n).pattern = n := by
  cases t with
  | bool => exact absurd rfl numeric
  | uint16 => exact UInt16.toNat_ofNat_of_lt' small
  | int16 => exact UInt16.toNat_ofNat_of_lt' small
  | uint32 => exact UInt32.toNat_ofNat_of_lt' small
  | int32 => exact UInt32.toNat_ofNat_of_lt' small
  | float32 => exact UInt32.toNat_ofNat_of_lt' small
  | uint64 => exact UInt64.toNat_ofNat_of_lt' small
  | int64 => exact UInt64.toNat_ofNat_of_lt' small
  | float64 => exact UInt64.toNat_ofNat_of_lt' small

/-- As many registers as a type takes are always the layout of a value of it, whatever they hold. -/
theorem exists_decodeExact? (numeric : t ≠ .bool) (o : ByteOrder) (bit : Nat) (size : registers.length = t.width) :
    ∃ v, decodeExact? t o bit registers = some v ∧ v.type = t ∧ v.encode o = registers := by
  by_cases wide : 1 < t.width
  · let v := ofPattern t (o.decode registers)
    have type : v.type = t := type_ofPattern t _
    have pattern : v.pattern = o.decode registers := pattern_ofPattern numeric (size ▸ o.decode_lt registers)
    refine ⟨v, decodeExact?_wide wide o bit size, type, ?_⟩
    rw [encode_wide (type ▸ wide), type, pattern, ← size, o.encode_decode]
  · cases t with
    | bool => exact absurd rfl numeric
    | uint16 | int16 =>
      obtain ⟨r, rfl⟩ := List.length_eq_one_iff.mp size
      exact ⟨_, rfl, rfl, by simp [encode]⟩
    | _ => exact absurd (Nat.le_of_ble_eq_true rfl) wide

theorem width_eq_registers (numeric : t ≠ .bool) : t.width = t.registers := by
  cases t with
  | bool => exact absurd rfl numeric
  | _ => rfl

/-- Under a tag of a type that is not bool, encoding and decoding undo each other. A value of the type is encoded so that
it is read back exactly, whatever registers follow; and registers that suffice are read as a value of the type that is
encoded as the registers that it was read from. -/
theorem decode_inverse_encodeAs (numeric : t ≠ .bool) {tag : String} (known : DataType.ofTag? tag = some t)
    (bit : UInt8) (o : ByteOrder) :
    (∀ v : Value, v.type = t → ∀ extra, ∃ words,
      v.encodeAs tag o = .ok words ∧ decode (words ++ extra) tag bit o = .ok v) ∧
    (∀ registers : List UInt16, t.registers ≤ registers.length → ∃ v : Value,
      decode registers tag bit o = .ok v ∧ v.type = t ∧ v.encodeAs tag o = .ok (registers.take t.registers)) := by
  constructor
  · rintro v rfl extra
    exact ⟨v.encode o, v.encodeAs_own known o, v.decode_encode known (fun isBool => absurd isBool numeric) o extra⟩
  · intro registers enough
    have size : (registers.take t.width).length = t.width := by
      rw [width_eq_registers numeric, List.length_take, Nat.min_eq_left enough]
    obtain ⟨v, found, type, laid⟩ := exists_decodeExact? numeric o bit.toNat size
    refine ⟨v, ?_, type, ?_⟩
    · simp only [decode, known, found, if_neg fun both : t = .bool ∧ 15 < bit => numeric both.1]
    · rw [v.encodeAs_own (type ▸ known), laid, width_eq_registers numeric]

/-- A signalling NaN with a payload is kept bit for bit, and so are four registers that hold another one; the fifth is
no part of the value. Floats have no bits to choose from, so any bit position will do. -/
theorem decode_inverse_encodeAs_nan :
    (∃ words, (f64 ⟨0xFFF0000000012345⟩).encodeAs "LReal" .littleEndianSwap = .ok words ∧
      decode (words ++ [7]) "LReal" 200 .littleEndianSwap = .ok (f64 ⟨0xFFF0000000012345⟩)) ∧
    ∃ v : Value, decode [0xF07F, 0x0100, 0, 0, 7] "LReal" 200 .littleEndianSwap = .ok v ∧ v.type = .float64 ∧
      v.encodeAs "LReal" .littleEndianSwap = .ok [0xF07F, 0x0100, 0, 0] := by
  have known : DataType.ofTag? "LReal" = some .float64 := by decide +kernel
  have inverse := decode_inverse_encodeAs (by decide : DataType.float64 ≠ .bool) known 200 .littleEndianSwap
  exact ⟨inverse.1 (f64 ⟨0xFFF0000000012345⟩) rfl [7], inverse.2 [0xF07F, 0x0100, 0, 0, 7] (by decide)⟩

end Value

end Modbus
