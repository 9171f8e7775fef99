import Modbus.Value.Registers

/-! Typed values as bit patterns. A type that spans two or four registers lays out the pattern of its value as one number
and reads it back; the types of one register have their own way. -/
namespace Modbus

namespace ByteOrder

theorem decode_encode_of_lt (o : ByteOrder) {count n : Nat} (small : n < 1 <<< (16 * count)) :
    o.decode (o.encode count n) = n := (o.decode_encode count n).trans (Nat.mod_eq_of_lt small)

end ByteOrder

theorem DataType.width_bounds (t : DataType) : 0 < t.width ∧ t.width ≤ 4 := by cases t <;> decide

namespace Value

/-- The bit pattern of a value as a number. -/
def pattern : Value → Nat
  | bool b => b.toNat
  | u16 n => n.toNat
  | i16 n => n.toUInt16.toNat
  | u32 n => n.toNat
  | i32 n => n.toUInt32.toNat
  | f32 x => x.bits.toNat
  | u64 n => n.toNat
  | i64 n => n.toUInt64.toNat
  | f64 x => x.bits.toNat

/-- The value of a type that has a bit pattern. -/
def ofPattern (t : DataType) (n : Nat) : Value :=
  match t with
  | .bool => bool (n.testBit 0)
  | .uint16 => u16 (.ofNat n)
  | .int16 => i16 (UInt16.ofNat n).toInt16
  | .uint32 => u32 (.ofNat n)
  | .int32 => i32 (UInt32.ofNat n).toInt32
  | .float32 => f32 ⟨.ofNat n⟩
  | .uint64 => u64 (.ofNat n)
  | .int64 => i64 (UInt64.ofNat n).toInt64
  | .float64 => f64 ⟨.ofNat n⟩

theorem ofPattern_pattern (v : Value) : ofPattern v.type v.pattern = v := by
  cases v with
  | bool b => cases b <;> rfl
  | _ => simp [ofPattern, type, pattern]

theorem pattern_lt (v : Value) : v.pattern < 1 <<< (16 * v.type.width) := by
  cases v with
  | bool b => cases b <;> decide
  | u16 n => exact n.toNat_lt
  | i16 n => exact n.toUInt16.toNat_lt
  | u32 n => exact n.toNat_lt
  | i32 n => exact n.toUInt32.toNat_lt
  | f32 x => exact x.bits.toNat_lt
  | u64 n => exact n.toNat_lt
  | i64 n => exact n.toUInt64.toNat_lt
  | f64 x => exact x.bits.toNat_lt

theorem length_encode (v : Value) (o : ByteOrder) : (v.encode o).length = v.type.width := by
  cases v <;> simp [encode, type, DataType.width, DataType.registers]

variable {t : DataType} {registers : List UInt16}

theorem encode_wide {v : Value} (wide : 1 < v.type.width) (o : ByteOrder) :
    v.encode o = o.encode v.type.width v.pattern := by
  cases v with
  | bool | u16 | i16 => exact absurd wide (Nat.lt_irrefl 1)
  | _ => rfl

theorem decodeExact?_wide (wide : 1 < t.width) (o : ByteOrder) (bit : Nat) (size : registers.length = t.width) :
    decodeExact? t o bit registers = some (ofPattern t (o.decode registers)) := by
  cases t with
  | bool | uint16 | int16 => exact absurd wide (by decide)
  | uint32 | int32 | float32 =>
    match registers, size with
    | [_, _], _ => rfl
  | uint64 | int64 | float64 =>
    match registers, size with
    | [_, _, _, _], _ => rfl

/-- A bool is laid out as its own first bit. -/
theorem decodeExact?_encode (v : Value) (o : ByteOrder) {bit : Nat} (first : v.type = .bool → bit = 0) :
    decodeExact? v.type o bit (v.encode o) = some v := by
  -- The six wide types are one case, because between the registers and the value there is always its pattern.
  by_cases wide : 1 < v.type.width
  · rw [decodeExact?_wide wide o bit (v.length_encode o), encode_wide wide, o.decode_encode_of_lt v.pattern_lt,
      ofPattern_pattern]
  · cases v with
    | bool b =>
      obtain rfl := first rfl
      cases b <;> rfl
    | u16 n => simp [decodeExact?, type, encode]
    | i16 n => simp [decodeExact?, type, encode]
    | _ => exact absurd (Nat.le_of_ble_eq_true rfl) wide

/-- A value is read back exactly under every tag of its own type, whatever registers follow. -/
theorem decode_encode {tag : String} (v : Value) (own : DataType.ofTag? tag = some v.type) {bit : UInt8}
    (first : v.type = .bool → bit = 0) (o : ByteOrder) (extra : List UInt16) :
    decode (v.encode o ++ extra) tag bit o = .ok v := by
  have whole : (v.encode o ++ extra).take v.type.width = v.encode o := List.take_left' (v.length_encode o)
  have found : decodeExact? v.type o bit.toNat (v.encode o) = some v := by
    refine v.decodeExact?_encode o fun isBool => ?_
    rw [first isBool]
    rfl
  have inside : ¬ (v.type = .bool ∧ 15 < bit) := by
    rintro ⟨isBool, beyond⟩
    rw [first isBool] at beyond
    exact absurd beyond (by decide)
  simp only [decode, own, whole, found, if_neg inside]

theorem decode_encode_alone {tag : String} (v : Value) (own : DataType.ofTag? tag = some v.type) {bit : UInt8}
    (first : v.type = .bool → bit = 0) (o : ByteOrder) : decode (v.encode o) tag bit o = .ok v := by
  have whole := v.decode_encode own first o []
  rwa [List.append_nil] at whole

theorem encodeAs_own {tag : String} (v : Value) (own : DataType.ofTag? tag = some v.type) (o : ByteOrder) :
    v.encodeAs tag o = .ok (v.encode o) := by
  unfold encodeAs
  rw [own]
  exact if_pos rfl

theorem encodeAs_foreign {tag : String} {v : Value} {t : DataType} (known : DataType.ofTag? tag = some t)
    (foreign : v.type ≠ t) (o : ByteOrder) : v.encodeAs tag o = encodeDoubleAs v.toDouble tag o := by
  unfold encodeAs
  rw [known]
  exact if_neg foreign

theorem type_ofDouble (t : DataType) (x : Ieee.Double) : (ofDouble t x).type = t := by
  cases t <;> rfl

/-- Values are encoded for exactly the known tags, in as many registers as the type of the tag takes. -/
theorem encodeAs_of_tag {tag : String} {t : DataType} (known : DataType.ofTag? tag = some t) (v : Value)
    (o : ByteOrder) : ∃ words, v.encodeAs tag o = .ok words ∧ words.length = t.width := by
  by_cases own : v.type = t
  · exact ⟨_, v.encodeAs_own (own ▸ known) o, own ▸ v.length_encode o⟩
  · refine ⟨(ofDouble t v.toDouble).encode o, ?_, ?_⟩
    · rw [encodeAs_foreign known own]
      simp only [encodeDoubleAs, known]
    · rw [length_encode, type_ofDouble]

end Value

end Modbus
