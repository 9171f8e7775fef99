import Modbus.Pdu
import Modbus.Word

/-! Storage in which a message is put together: 253 bytes that are never moved, of which the first
`size` belong to the message. A step that does not fit fails and leaves the storage as it was. Bytes
past the message may hold anything, and no answer depends on them. -/
namespace Modbus.Pdu

open Protocol (maxPduSize)

structure Buffer where
  store : Vector UInt8 maxPduSize
  size : Nat
  size_le : size ≤ maxPduSize

namespace Buffer

def empty : Buffer := ⟨Vector.replicate maxPduSize 0, 0, Nat.zero_le _⟩

def bytes (b : Buffer) : List UInt8 := b.store.toList.take b.size

/-- Writes bytes over the storage from `start` on. -/
def overwrite (store : Vector UInt8 n) (start : Nat) : List UInt8 → Vector UInt8 n
  | [] => store
  | x :: xs => overwrite (store.setIfInBounds start x) (start + 1) xs

def push (b : Buffer) (x : UInt8) : Except Error Buffer :=
  if h : b.size + 1 ≤ maxPduSize then
    .ok ⟨overwrite b.store b.size [x], b.size + 1, h⟩
  else .error .pduFull

/-- High byte first; room for both bytes is asked for before either is written. -/
def pushWord (b : Buffer) (w : UInt16) : Except Error Buffer :=
  if h : b.size + 2 ≤ maxPduSize then
    .ok ⟨overwrite b.store b.size (Word.bytes w), b.size + 2, h⟩
  else .error .pduFull

def extend (b : Buffer) (xs : List UInt8) : Except Error Buffer :=
  if h : b.size + xs.length ≤ maxPduSize then
    .ok ⟨overwrite b.store b.size xs, b.size + xs.length, h⟩
  else .error (.pduWouldExceed b.size xs.length)

def ofBytes (xs : List UInt8) : Except Error Buffer :=
  if h : xs.length ≤ maxPduSize then
    .ok ⟨overwrite empty.store 0 xs, xs.length, h⟩
  else .error (.pduTooLarge xs.length)

/-- Forgets the message. Its bytes stay in the storage. -/
def clear (b : Buffer) : Buffer := { b with size := 0, size_le := Nat.zero_le _ }

def functionCode? (b : Buffer) : Option UInt8 := if b.size = 0 then none else b.store[0]?

def isException (b : Buffer) : Bool := b.functionCode?.any FunctionCode.isException

def exceptionCode? (b : Buffer) : Option UInt8 :=
  if b.isException ∧ 2 ≤ b.size then b.store[1]? else none

@[simp] theorem length_bytes (b : Buffer) : b.bytes.length = b.size := by
  simp [bytes, Nat.min_eq_left b.size_le]

def toPdu (b : Buffer) : Pdu := ⟨b.bytes, by rw [length_bytes]; exact b.size_le⟩

theorem take_overwrite (store : Vector UInt8 n) (start : Nat) (xs : List UInt8) (fits : start + xs.length ≤ n) :
    (overwrite store start xs).toList.take (start + xs.length) = store.toList.take start ++ xs := by
  induction xs generalizing store start with
  | nil => simp [overwrite]
  | cons x xs ih =>
    simp only [List.length_cons] at fits
    rw [overwrite, List.length_cons, show start + (xs.length + 1) = start + 1 + xs.length by omega,
      ih _ _ (by omega), Vector.toList_setIfInBounds, List.take_add_one]
    simp [List.take_set_of_le, show start < n by omega]

theorem bytes_of_push {b c : Buffer} {x : UInt8} (done : b.push x = .ok c) : c.bytes = b.bytes ++ [x] := by
  unfold push at done
  split at done
  case isTrue h => cases done; exact take_overwrite b.store b.size [x] h
  case isFalse => nomatch done

theorem bytes_of_pushWord {b c : Buffer} {w : UInt16} (done : b.pushWord w = .ok c) :
    c.bytes = b.bytes ++ Word.bytes w := by
  unfold pushWord at done
  split at done
  case isTrue h => cases done; exact take_overwrite b.store b.size (Word.bytes w) h
  case isFalse => nomatch done

theorem bytes_of_extend {b c : Buffer} {xs : List UInt8} (done : b.extend xs = .ok c) :
    c.bytes = b.bytes ++ xs := by
  unfold extend at done
  split at done
  case isTrue h => cases done; exact take_overwrite b.store b.size xs h
  case isFalse => nomatch done

theorem bytes_of_ofBytes {c : Buffer} {xs : List UInt8} (done : ofBytes xs = .ok c) : c.bytes = xs := by
  unfold ofBytes at done
  split at done
  case isTrue h => cases done; simpa [bytes] using take_overwrite empty.store 0 xs (by omega)
  case isFalse => nomatch done

@[simp] theorem bytes_empty : empty.bytes = [] := by simp [bytes, empty]

@[simp] theorem bytes_clear (b : Buffer) : b.clear.bytes = [] := by simp [bytes, clear]

end Buffer

end Modbus.Pdu
