/-! Coils packed eight to a byte, the first in the least significant bit. -/
namespace Modbus.Bits

/-- The number with these binary digits, least significant first. -/
def value : List Bool → Nat
  | [] => 0
  | b :: bs => b.toNat + 2 * value bs

/-- The last byte is filled up with zeros. -/
def pack (bits : List Bool) : List UInt8 :=
  match bits with
  | [] => []
  | b :: bs => UInt8.ofNat (value (b :: bs.take 7)) :: pack (bs.drop 7)
  termination_by bits.length
  decreasing_by simp only [List.length_drop, List.length_cons]; omega

def ofByte (byte : UInt8) : List Bool := (List.range 8).map byte.toNat.testBit

def unpack (bytes : List UInt8) : List Bool := bytes.flatMap ofByte

/-- Bytes that `count` packed bits take. -/
def byteCount (count : Nat) : Nat := (count + 7) / 8

theorem length_pack (bits : List Bool) : (pack bits).length = byteCount bits.length := by
  fun_induction pack bits with
  | case1 => rfl
  | case2 b bs ih =>
    simp only [List.length_cons, ih, List.length_drop, byteCount]
    omega

theorem length_unpack (bytes : List UInt8) : (unpack bytes).length = 8 * bytes.length := by
  induction bytes with
  | nil => rfl
  | cons b bytes ih =>
    simp only [unpack, List.flatMap_cons, List.length_append] at ih ⊢
    simp only [ih, ofByte, List.length_map, List.length_range, List.length_cons]
    omega

end Modbus.Bits
