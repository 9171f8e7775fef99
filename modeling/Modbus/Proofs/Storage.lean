import Modbus.Proofs.Assembly

/-! A message in its storage, whatever is done with it. For whoever looks at the message it is a list of at most 253 bytes:
a step that does not fit changes nothing, and bytes that earlier messages have left behind are never seen. -/
namespace Modbus.Pdu.Buffer

open Protocol (maxPduSize)

/-- What can be done with a message in its storage. -/
inductive Step where
  | push (x : UInt8)
  | pushWord (w : UInt16)
  | extend (xs : List UInt8)
  | replace (xs : List UInt8)
  | clear
  deriving DecidableEq

def attempt (b : Buffer) : Step → Except Error Buffer
  | .push x => b.push x
  | .pushWord w => b.pushWord w
  | .extend xs => b.extend xs
  | .replace xs => ofBytes xs
  | .clear => .ok b.clear

/-- Goes on with the storage as it was if the attempt fails. -/
def step (b : Buffer) (s : Step) : Except Error Unit × Buffer :=
  match b.attempt s with
  | .ok c => (.ok (), c)
  | .error e => (.error e, b)

def run (b : Buffer) (steps : List Step) : Buffer := steps.foldl (fun b s => (b.step s).2) b

/-- All that can be asked of a message. -/
structure View where
  size : Nat
  bytes : List UInt8
  functionCode? : Option UInt8
  isException : Bool
  exceptionCode? : Option UInt8
  deriving DecidableEq

def view (b : Buffer) : View := ⟨b.size, b.bytes, b.functionCode?, b.isException, b.exceptionCode?⟩

/-! The same for a list of bytes. -/

/-- The list that a step is to leave behind. -/
def Step.result (held : List UInt8) : Step → List UInt8
  | push x => held ++ [x]
  | pushWord w => held ++ Word.bytes w
  | extend xs => held ++ xs
  | replace xs => xs
  | clear => []

/-- The list that it does leave behind, if no list may be longer than a message. -/
def Step.keep (held : List UInt8) (s : Step) : List UInt8 :=
  if (s.result held).length ≤ maxPduSize then s.result held else held

/-- The error of a step whose result is too long behind `size` bytes, which never is that of a clear. -/
def Step.overflow (size : Nat) : Step → Error
  | extend xs => .pduWouldExceed size xs.length
  | replace xs => .pduTooLarge xs.length
  | push _ | pushWord _ | clear => .pduFull

def View.of (held : List UInt8) : View where
  size := held.length
  bytes := held
  functionCode? := held.head?
  isException := held.head?.any FunctionCode.isException
  exceptionCode? := if held.head?.any FunctionCode.isException then held[1]? else none

variable {b : Buffer}

theorem getElem?_bytes {i : Nat} (inside : i < b.size) : b.bytes[i]? = b.store[i]? := by
  rw [bytes, List.getElem?_take_of_lt inside, Vector.getElem?_toList]

/-- Every answer is read off the bytes of the message. -/
theorem view_eq (b : Buffer) : b.view = .of b.bytes := by
  have code : b.functionCode? = b.bytes.head? := by
    rw [functionCode?, List.head?_eq_getElem?]
    split
    case isTrue empty => rw [List.getElem?_eq_none (Nat.le_of_eq (b.length_bytes.trans empty))]
    case isFalse some => rw [getElem?_bytes (Nat.pos_of_ne_zero some)]
  have exception : b.isException = b.bytes.head?.any FunctionCode.isException := by rw [isException, code]
  have exceptionCode : b.exceptionCode? = if b.isException then b.bytes[1]? else none := by
    rw [exceptionCode?]
    by_cases two : 2 ≤ b.size
    · rw [getElem?_bytes two]
      simp only [two, and_true]
    · rw [if_neg fun both => two both.2, List.getElem?_eq_none (by rw [length_bytes]; omega), ite_self]
  rw [view, View.of, exceptionCode, exception, code, length_bytes]

/-- A part that fits is laid behind the message. -/
theorem exists_append (part : Part) (fits : (b.bytes ++ part.bytes).length ≤ maxPduSize) :
    ∃ c, b.append part = .ok c ∧ c.bytes = b.bytes ++ part.bytes := by
  rw [List.length_append, length_bytes] at fits
  have done := (b.append_eq part).trans (dif_pos fits)
  exact ⟨_, done, bytes_of_append done⟩

theorem append_of_overflow (part : Part) (beyond : maxPduSize < (b.bytes ++ part.bytes).length) :
    b.append part = .error (part.overflow b.bytes.length) := by
  rw [List.length_append, length_bytes] at beyond
  rw [length_bytes]
  exact (b.append_eq part).trans (dif_neg (Nat.not_le_of_lt beyond))

theorem exists_attempt {s : Step} (fits : (s.result b.bytes).length ≤ maxPduSize) :
    ∃ c, b.attempt s = .ok c ∧ c.bytes = s.result b.bytes := by
  cases s with
  | push x => exact exists_append (.byte x) fits
  | pushWord w => exact exists_append (.word w) fits
  | extend xs => exact exists_append (.data xs) fits
  | replace xs =>
    have done : ofBytes xs = .ok _ := dif_pos fits
    exact ⟨_, done, bytes_of_ofBytes done⟩
  | clear => exact ⟨b.clear, rfl, b.bytes_clear⟩

theorem attempt_of_overflow {s : Step} (beyond : maxPduSize < (s.result b.bytes).length) :
    b.attempt s = .error (s.overflow b.bytes.length) := by
  cases s with
  | push x => exact append_of_overflow (.byte x) beyond
  | pushWord w => exact append_of_overflow (.word w) beyond
  | extend xs => exact append_of_overflow (.data xs) beyond
  | replace xs => exact dif_neg (Nat.not_le_of_lt beyond)
  | clear => exact absurd beyond (Nat.not_lt_zero _)

/-- A step does with the message what it does with the list of its bytes. -/
theorem step_spec (b : Buffer) (s : Step) :
    (b.step s).1 =
        (if (s.result b.bytes).length ≤ maxPduSize then .ok () else .error (s.overflow b.bytes.length)) ∧
      (b.step s).2.bytes = s.keep b.bytes := by
  unfold step Step.keep
  by_cases fits : (s.result b.bytes).length ≤ maxPduSize
  · obtain ⟨c, done, bytes⟩ := exists_attempt fits
    rw [done, if_pos fits, if_pos fits]
    exact ⟨rfl, bytes⟩
  · rw [attempt_of_overflow (Nat.lt_of_not_le fits), if_neg fits, if_neg fits]
    exact ⟨rfl, rfl⟩

theorem bytes_run (b : Buffer) (steps : List Step) : (b.run steps).bytes = steps.foldl Step.keep b.bytes := by
  induction steps generalizing b with
  | nil => rfl
  | cons s rest ih =>
    rw [List.foldl_cons, ← (b.step_spec s).2]
    exact ih (b.step s).2

/-- After any steps a message in its storage answers like the list of at most 253 bytes that the steps make. The next step
succeeds exactly if its result fits, and then leaves that; if it fails, all answers stay as they were. Bytes past the
message count for nothing: from any other storage of the same message the same steps end alike. -/
theorem view_run (b : Buffer) (steps : List Step) (s : Step) :
    let here := b.run steps
    let next := here.step s
    let held := steps.foldl Step.keep b.bytes
    (here.view = .of held ∧ held.length ≤ 253) ∧
      ((next.1 = .ok () ↔ (s.result held).length ≤ 253) ∧
        (next.1 = .ok () → next.2.view = .of (s.result held)) ∧
        (∀ e, next.1 = .error e → next.2.view = here.view ∧ e = s.overflow held.length)) ∧
      ∀ c : Buffer, c.bytes = b.bytes →
        (c.run steps).view = here.view ∧
          ((c.run steps).step s).1 = next.1 ∧ ((c.run steps).step s).2.view = next.2.view := by
  intro here next held
  have bytes : here.bytes = held := b.bytes_run steps
  obtain ⟨outcome, after⟩ := here.step_spec s
  rw [bytes] at outcome after
  have view : here.view = .of held := bytes ▸ here.view_eq
  have later : next.2.view = .of (s.keep held) := after ▸ next.2.view_eq
  refine ⟨⟨view, ?_⟩, ?_, ?_⟩
  · rw [← bytes, length_bytes]
    exact here.size_le
  · rw [later, view, Step.keep]
    by_cases fits : (s.result held).length ≤ maxPduSize
    · rw [if_pos fits] at outcome ⊢
      exact ⟨iff_of_true outcome fits, fun _ => rfl, fun e failed => nomatch outcome.symm.trans failed⟩
    · rw [if_neg fits] at outcome ⊢
      refine ⟨iff_of_false (fun ok => nomatch outcome.symm.trans ok) fits, ?_, ?_⟩
      · exact fun ok => nomatch outcome.symm.trans ok
      · exact fun e failed => ⟨rfl, Except.error.inj (failed.symm.trans outcome)⟩
  · intro c same
    have bytes' : (c.run steps).bytes = held := by rw [c.bytes_run, same]
    obtain ⟨outcome', after'⟩ := (c.run steps).step_spec s
    rw [bytes'] at outcome' after'
    rw [view_eq, bytes', view, outcome', view_eq, after', later]
    exact ⟨rfl, outcome.symm, rfl⟩

/-- The exception code of an earlier message is still in the storage where a new exception has none, and a message that
would be too long by one byte leaves it there. -/
theorem view_run_staleCode :
    let cleared := empty.run [.extend [0x83, 0x02], .clear]
    let exception := cleared.run [.push 0x81]
    let overlong := exception.step (.extend (List.replicate 253 0x02))
    cleared.bytes = empty.bytes ∧ exception.store[1]? = some 0x02 ∧
      exception.view = ⟨1, [0x81], some 0x81, true, none⟩ ∧
      overlong.1 = .error (.pduWouldExceed 1 253) ∧ overlong.2.view = exception.view := by
  intro cleared exception overlong
  have same : cleared.bytes = empty.bytes := by decide +kernel
  obtain ⟨⟨view, -⟩, ⟨succeeds, -, fails⟩, others⟩ :=
    view_run empty [.push 0x81] (.extend (List.replicate 253 0x02))
  obtain ⟨seen, outcome, after⟩ := others cleared same
  refine ⟨same, by decide +kernel, seen.trans view, ?_⟩
  rw [outcome, after, seen]
  cases failed : ((empty.run [.push 0x81]).step (.extend (List.replicate 253 0x02))).1 with
  | ok done => exact absurd (succeeds.mp failed) (by decide +kernel)
  | error e =>
    obtain ⟨unchanged, rfl⟩ := fails e failed
    exact ⟨congrArg Except.error (by decide +kernel), unchanged⟩

end Modbus.Pdu.Buffer
