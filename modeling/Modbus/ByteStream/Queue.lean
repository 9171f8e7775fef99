/-! Bytes received and not yet read: a buffer with a read position. Appending drops what has been read. -/
namespace Modbus.ByteStream

structure Queue where
  buffer : List UInt8
  position : Nat
  position_le : position ≤ buffer.length

namespace Queue

def ofBytes (bytes : List UInt8) : Queue := ⟨bytes, 0, Nat.zero_le _⟩

def empty : Queue := ofBytes []

/-- What has not been read. -/
def pending (q : Queue) : List UInt8 := q.buffer.drop q.position

def available (q : Queue) : Nat := q.buffer.length - q.position

def append (q : Queue) (bytes : List UInt8) : Queue := ofBytes (q.pending ++ bytes)

/-- Reads as many bytes as there are, up to `n`. -/
def read (q : Queue) (n : Nat) : List UInt8 × Queue :=
  (q.pending.take n, ⟨q.buffer, q.position + min n q.available, by
    have := q.position_le
    unfold available
    omega⟩)

@[simp] theorem length_pending (q : Queue) : q.pending.length = q.available := by
  simp [pending, available]

@[simp] theorem pending_ofBytes (bytes : List UInt8) : (ofBytes bytes).pending = bytes := rfl

@[simp] theorem pending_append (q : Queue) (bytes : List UInt8) : (q.append bytes).pending = q.pending ++ bytes := rfl

theorem pending_read (q : Queue) (n : Nat) : (q.read n).2.pending = q.pending.drop n := by
  simp only [read, pending, List.drop_drop, available]
  by_cases h : n ≤ q.buffer.length - q.position
  · rw [Nat.min_eq_left h]
  · rw [Nat.min_eq_right (by omega), List.drop_eq_nil_of_le (by omega), List.drop_eq_nil_of_le (by omega)]

/-- Nothing is lost, repeated or moved: what is read comes before what stays. -/
theorem read_append_pending (q : Queue) (n : Nat) : (q.read n).1 ++ (q.read n).2.pending = q.pending := by
  rw [pending_read]
  exact List.take_append_drop n q.pending

end Queue

end Modbus.ByteStream
