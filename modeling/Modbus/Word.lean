/-! Bytes of 16-bit words. The wire carries the high byte first, so a list of words is the list of
its byte pairs, and reading the pairs back gives the words. -/
namespace Modbus.Word

def high (w : UInt16) : UInt8 := (w / 256).toUInt8

def low (w : UInt16) : UInt8 := w.toUInt8

def ofBytes (high low : UInt8) : UInt16 := high.toUInt16 * 256 + low.toUInt16

def swap (w : UInt16) : UInt16 := ofBytes (low w) (high w)

/-- High byte first. -/
def bytes (w : UInt16) : List UInt8 := [high w, low w]

/-- Big-endian pairs of a byte list. A last byte without a partner is dropped. -/
def ofPairs : List UInt8 → List UInt16
  | high :: low :: rest => ofBytes high low :: ofPairs rest
  | _ => []

theorem toNat_ofNat {n : Nat} (small : n ≤ 0xFFFF) : (UInt16.ofNat n).toNat = n :=
  UInt16.toNat_ofNat_of_lt' (Nat.lt_succ_of_le small)

theorem toNat_high (w : UInt16) : (high w).toNat = w.toNat / 256 := by
  have := w.toNat_lt
  simp only [high, UInt16.toNat_toUInt8, UInt16.toNat_div, UInt16.reduceToNat]
  omega

theorem toNat_low (w : UInt16) : (low w).toNat = w.toNat % 256 := by
  simp [low]

theorem toNat_ofBytes (h l : UInt8) : (ofBytes h l).toNat = h.toNat * 256 + l.toNat := by
  have := h.toNat_lt
  have := l.toNat_lt
  simp only [ofBytes, UInt16.toNat_add, UInt16.toNat_mul, UInt8.toNat_toUInt16, UInt16.reduceToNat]
  omega

@[simp] theorem ofBytes_high_low (w : UInt16) : ofBytes (high w) (low w) = w := by
  apply UInt16.toNat_inj.mp
  rw [toNat_ofBytes, toNat_high, toNat_low]
  omega

@[simp] theorem high_ofBytes (h l : UInt8) : high (ofBytes h l) = h := by
  have := l.toNat_lt
  apply UInt8.toNat_inj.mp
  rw [toNat_high, toNat_ofBytes]
  omega

@[simp] theorem low_ofBytes (h l : UInt8) : low (ofBytes h l) = l := by
  have := l.toNat_lt
  apply UInt8.toNat_inj.mp
  rw [toNat_low, toNat_ofBytes]
  omega

@[simp] theorem swap_swap (w : UInt16) : swap (swap w) = w := by
  simp [swap]

@[simp] theorem length_bytes (w : UInt16) : (bytes w).length = 2 := rfl

theorem length_flatMap_bytes (ws : List UInt16) : (ws.flatMap bytes).length = 2 * ws.length := by
  induction ws with
  | nil => rfl
  | cons w ws ih => simp only [List.flatMap_cons, List.length_append, length_bytes, ih, List.length_cons]; omega

@[simp] theorem ofPairs_flatMap_bytes (ws : List UInt16) : ofPairs (ws.flatMap bytes) = ws := by
  induction ws with
  | nil => rfl
  | cons w ws ih => simp [bytes, ofPairs, ih]

theorem length_ofPairs (bytes : List UInt8) : (ofPairs bytes).length = bytes.length / 2 := by
  fun_induction ofPairs bytes with
  | case1 high low rest ih => simp only [List.length_cons, ih]; omega
  | case2 bytes short =>
    match bytes, short with
    | [], _ => rfl
    | [_], _ => simp
    | a :: b :: rest, short => exact absurd rfl (short a b rest)

/-- The word at an index is made of the two bytes at its place. -/
theorem getElem?_ofPairs (bytes : List UInt8) (i : Nat) :
    (ofPairs bytes)[i]? = do return ofBytes (← bytes[2 * i]?) (← bytes[2 * i + 1]?) := by
  fun_induction ofPairs bytes generalizing i with
  | case1 high low rest ih =>
    cases i with
    | zero => rfl
    | succ i => exact ih i
  | case2 bytes short =>
    match bytes, short with
    | [], _ => rfl
    | [_], _ => cases i <;> simp
    | a :: b :: rest, short => exact absurd rfl (short a b rest)

end Modbus.Word
