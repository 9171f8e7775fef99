import Modbus.Proofs.Response

/-! What a client makes of any response at all. A response counts if it begins with the function code of the request
and goes on with what was asked for; every other one is an error, whose kind can be read off its first two bytes. -/
namespace Modbus.Response

variable {α : Type} {p : Pdu} {function : UInt8}

/-- The kind of error that a response to a request of `function` is, if it is not the one asked for. -/
def faultKind (function : UInt8) : List UInt8 → ErrorKind
  | [] => .protocol
  | first :: rest =>
    if FunctionCode.isException first then if rest = [] then .protocol else .exception
    else if first ≠ function then .functionCodeMismatch
    else .protocol

theorem check_nil (none : p.bytes = []) : check p function = .error .emptyResponse := by
  rw [check, Pdu.functionCode?, none]
  rfl

theorem check_cons {first : UInt8} {rest : List UInt8} (bytes : p.bytes = first :: rest) :
    check p function =
      if FunctionCode.isException first then
        match rest.head? with
        | none => .error .exceptionWithoutCode
        | some code => .error (.exception (FunctionCode.withoutException first) code)
      else if first ≠ function then .error (.functionMismatch function first)
      else .ok () := by
  simp only [check, Pdu.functionCode?, Pdu.exceptionCode?, Pdu.isException, bytes, List.head?_cons, Option.any_some]
  split
  · cases rest <;> rfl
  · rfl

theorem check_eq_ok_iff : check p function = .ok () ↔
    FunctionCode.isException function = false ∧ ∃ rest, p.bytes = function :: rest := by
  constructor
  · intro ok
    cases bytes : p.bytes with
    | nil => rw [check_nil bytes] at ok; nomatch ok
    | cons first rest =>
      rw [check_cons bytes] at ok
      split at ok
      · cases rest <;> nomatch ok
      case isFalse plain =>
        split at ok
        · nomatch ok
        case isFalse same =>
          obtain rfl := Decidable.not_not.mp same
          exact ⟨Bool.eq_false_iff.mpr plain, rest, rfl⟩
  · rintro ⟨plain, rest, bytes⟩
    exact check_eq_ok bytes plain

theorem kind_of_check {e : Error} (failed : check p function = .error e) : e.kind = faultKind function p.bytes := by
  cases bytes : p.bytes with
  | nil =>
    rw [check_nil bytes] at failed
    cases failed
    rfl
  | cons first rest =>
    rw [check_cons bytes] at failed
    rw [faultKind]
    split at failed
    case isTrue high =>
      rw [if_pos high]
      cases rest <;> (cases failed; rfl)
    case isFalse plain =>
      rw [if_neg plain]
      split at failed
      case isTrue other =>
        rw [if_pos other]
        cases failed
        rfl
      case isFalse => nomatch failed

theorem check_bind_eq_ok_iff {rest : Except Error α} {x : α} : (check p function >>= fun _ => rest) = .ok x ↔
    FunctionCode.isException function = false ∧ (∃ body, p.bytes = function :: body) ∧ rest = .ok x := by
  rw [← and_assoc, ← check_eq_ok_iff]
  cases check p function with
  | error e => exact ⟨nofun, nofun⟩
  | ok _ => exact ⟨fun done => ⟨rfl, done⟩, fun done => done.2⟩

/-- What comes behind the check of the function code fails with protocol errors only, so that the kind of a failure does
not depend on it. -/
theorem kind_of_check_bind {rest : Except Error α} {e : Error} (protocol : ∀ e, rest = .error e → e.kind = .protocol)
    (failed : (check p function >>= fun _ => rest) = .error e) : e.kind = faultKind function p.bytes := by
  cases checked : check p function with
  | error e' =>
    rw [checked] at failed
    cases failed
    exact kind_of_check checked
  | ok _ =>
    rw [checked] at failed
    obtain ⟨plain, body, bytes⟩ := check_eq_ok_iff.mp checked
    rw [protocol e failed, bytes, faultKind, if_neg (by simp [plain]), if_neg (not_not_intro rfl)]

/-- Exactly the echo of address and word confirms a write. -/
theorem checkEcho_eq_ok_iff {address word : UInt16} : checkEcho p function address word = .ok () ↔
    FunctionCode.isException function = false ∧ p.bytes = function :: (Word.bytes address ++ Word.bytes word) := by
  rw [checkEcho, check_bind_eq_ok_iff]
  refine and_congr_right fun _ => ?_
  constructor
  · rintro ⟨⟨body, bytes⟩, confirmed⟩
    rw [bytes] at confirmed ⊢
    split at confirmed
    case h_1 five =>
      rw [Request.guard_eq_ok_iff, Request.guard_eq_ok_iff, Decidable.not_not, Decidable.not_not] at confirmed
      obtain ⟨rfl, rfl, -⟩ := confirmed
      cases five
      simp [Word.bytes]
    case h_2 => cases confirmed
  · intro bytes
    exact ⟨⟨_, bytes⟩, by simp [bytes, Word.bytes]⟩

theorem kind_of_checkEcho {address word : UInt16} {e : Error} (failed : checkEcho p function address word = .error e) :
    e.kind = faultKind function p.bytes := by
  refine kind_of_check_bind ?_ failed
  intro e failed
  split at failed
  · split at failed
    · cases failed; rfl
    · split at failed
      · cases failed; rfl
      · nomatch failed
  · cases failed; rfl

end Modbus.Response
