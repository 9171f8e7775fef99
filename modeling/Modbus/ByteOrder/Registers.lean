import Modbus.ByteOrder
import Modbus.Word

/-! Numbers laid out in registers. `spread` and `collect` turn registers into bytes, most
significant byte first, and back; `decode` and `encode` go on to the number. Each pair is inverse,
for any number of registers and any order. -/
namespace Modbus.ByteOrder

/-- The bytes of a register, in the order in which they make up its word. -/
def split (o : ByteOrder) (register : UInt16) : List UInt8 :=
  if o.swapsBytes then [Word.low register, Word.high register] else Word.bytes register

def join (o : ByteOrder) (first second : UInt8) : UInt16 :=
  if o.swapsBytes then Word.ofBytes second first else Word.ofBytes first second

def joinPairs (o : ByteOrder) : List UInt8 → List UInt16
  | first :: second :: rest => o.join first second :: joinPairs o rest
  | _ => []

def arrange (o : ByteOrder) (words : List α) : List α :=
  if o.reversesWords then words.reverse else words

/-- Bytes of the registers, most significant first. -/
def spread (o : ByteOrder) (registers : List UInt16) : List UInt8 :=
  (o.arrange registers).flatMap o.split

def collect (o : ByteOrder) (bytes : List UInt8) : List UInt16 :=
  o.arrange (o.joinPairs bytes)

/-- The number with these digits in base 256, most significant first. -/
def number (bytes : List UInt8) : Nat := bytes.foldl (fun n b => n * 256 + b.toNat) 0

/-- The last `count` digits of a number in base 256, most significant first. -/
def digits : Nat → Nat → List UInt8
  | 0, _ => []
  | count + 1, n => digits count (n / 256) ++ [UInt8.ofNat n]

def decode (o : ByteOrder) (registers : List UInt16) : Nat := number (o.spread registers)

def encode (o : ByteOrder) (count : Nat) (n : Nat) : List UInt16 := o.collect (digits (2 * count) n)

/-- The two bytes of a single register. Unlike inside wider values, `littleEndianSwap` leaves them
high byte first. -/
def registerBytes (o : ByteOrder) (register : UInt16) : List UInt8 :=
  match o with
  | littleEndian16 | littleEndian => [Word.low register, Word.high register]
  | _ => Word.bytes register

/-- The 16-bit value of a single register. Only `littleEndian16` swaps, and the swap is its own
inverse, so this also lays a value out. -/
def word (o : ByteOrder) (register : UInt16) : UInt16 :=
  match o with
  | littleEndian16 => Word.swap register
  | _ => register

@[simp] theorem word_word (o : ByteOrder) (w : UInt16) : o.word (o.word w) = w := by
  cases o <;> simp [word]

@[simp] theorem arrange_arrange (o : ByteOrder) (words : List α) : o.arrange (o.arrange words) = words := by
  unfold arrange
  split <;> simp

@[simp] theorem length_arrange (o : ByteOrder) (words : List α) : (o.arrange words).length = words.length := by
  unfold arrange
  split <;> simp

@[simp] theorem joinPairs_flatMap_split (o : ByteOrder) (words : List UInt16) :
    o.joinPairs (words.flatMap o.split) = words := by
  induction words with
  | nil => rfl
  | cons w ws ih =>
    by_cases h : o.swapsBytes <;> simp_all [split, join, joinPairs, Word.bytes]

@[simp] theorem collect_spread (o : ByteOrder) (registers : List UInt16) :
    o.collect (o.spread registers) = registers := by
  simp [collect, spread]

@[simp] theorem length_digits (count n : Nat) : (digits count n).length = count := by
  induction count generalizing n with
  | zero => rfl
  | succ count ih => simp [digits, ih]

theorem number_append_single (bytes : List UInt8) (b : UInt8) :
    number (bytes ++ [b]) = number bytes * 256 + b.toNat := by
  simp [number]

theorem number_digits (count n : Nat) : number (digits count n) = n % (1 <<< (8 * count)) := by
  induction count generalizing n with
  | zero => simp [digits, number, Nat.mod_one]
  | succ count ih =>
    have step : 1 <<< (8 * (count + 1)) = 256 * (1 <<< (8 * count)) := by
      rw [Nat.one_shiftLeft, Nat.one_shiftLeft, Nat.mul_succ, Nat.pow_add, Nat.mul_comm]
    rw [digits, number_append_single, ih, UInt8.toNat_ofNat', step, Nat.mod_mul]
    omega

theorem flatMap_split_joinPairs (o : ByteOrder) (bytes : List UInt8) (even : bytes.length % 2 = 0) :
    (o.joinPairs bytes).flatMap o.split = bytes := by
  fun_induction joinPairs o bytes with
  | case1 first second rest ih =>
    have := ih (by simp only [List.length_cons] at even; omega)
    by_cases h : o.swapsBytes <;> simp_all [split, join, Word.bytes]
  | case2 bytes h =>
    rcases bytes with _ | ⟨a, _ | ⟨b, rest⟩⟩
    · rfl
    · simp at even
    · exact absurd rfl (h a b rest)

theorem spread_collect (o : ByteOrder) (bytes : List UInt8) (even : bytes.length % 2 = 0) :
    o.spread (o.collect bytes) = bytes := by
  simp [spread, collect, flatMap_split_joinPairs o bytes even]

/-- A number that fits reads back as it was laid out. -/
theorem decode_encode (o : ByteOrder) (count n : Nat) : o.decode (o.encode count n) = n % (1 <<< (16 * count)) := by
  rw [decode, encode, spread_collect o _ (by simp [length_digits]), number_digits, ← Nat.mul_assoc]

theorem length_joinPairs (o : ByteOrder) (bytes : List UInt8) : (o.joinPairs bytes).length = bytes.length / 2 := by
  fun_induction joinPairs o bytes with
  | case1 first second rest ih => simp only [List.length_cons, ih]; omega
  | case2 bytes h =>
    match bytes, h with
    | [], _ => rfl
    | [_], _ => simp
    | a :: b :: rest, h => exact absurd rfl (h a b rest)

@[simp] theorem length_encode (o : ByteOrder) (count n : Nat) : (o.encode count n).length = count := by
  simp [encode, collect, length_joinPairs]

end Modbus.ByteOrder
