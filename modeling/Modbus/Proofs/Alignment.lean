import Mathlib.Data.List.Infix
import Modbus.Proofs.Transactions

/-! Where requests over TCP begin to read. A request that is answered, or refuses an answer with a foreign id, reads
one frame to its end. One that fails otherwise drops what it has read, so if that is a part of a frame, the next one
takes the bytes behind it for a header. -/
namespace Modbus

variable {π : Type}

namespace Mbap

/-- A frame as a device sends it: the length field says how long it is. -/
def WellFormed (bytes : List UInt8) : Prop :=
  ∃ h, header? bytes = some h ∧ h.protocolId = 0 ∧ 2 ≤ h.length.toNat ∧ h.length.toNat ≤ 254 ∧
    bytes.length = h.frameSize

theorem WellFormed.exists_frame {bytes : List UInt8} (wellFormed : WellFormed bytes) : ∃ f : Frame, f.bytes = bytes := by
  obtain ⟨h, header, protocol, least, most, size⟩ := wellFormed
  unfold header? at header
  split at header
  case h_2 => nomatch header
  case h_1 t₁ t₂ p₁ p₂ l₁ l₂ unitId message =>
    cases header
    dsimp only [Header.frameSize] at protocol least most size
    simp only [List.length_cons] at size
    have pos : 0 < message.length := by omega
    have fits : message.length ≤ Protocol.maxPduSize := by unfold Protocol.maxPduSize; omega
    have length : UInt16.ofNat (1 + message.length) = Word.ofBytes l₁ l₂ := by
      have same : (Word.ofBytes l₁ l₂).toNat = 1 + message.length := by omega
      rw [← same, UInt16.ofNat_toNat]
    refine ⟨⟨Word.ofBytes t₁ t₂, unitId, ⟨message, fits⟩, pos⟩, ?_⟩
    have word (high low : UInt8) : Word.bytes (Word.ofBytes high low) = [high, low] := by
      rw [Word.bytes, Word.high_ofBytes, Word.low_ofBytes]
    rw [Frame.bytes, encode, length, ← protocol, word, word, word]
    rfl

end Mbap

/-- Whole frames and less than the next one: if these are whole frames again, it is nothing of the next one. -/
theorem part_eq_nil {frames : List (List UInt8)} {i k : Nat} {part : List UInt8}
    (whole : (frames.take i).flatten = (frames.take k).flatten ++ part) (less : Framed.PartOfNext frames k part) :
    part = [] := by
  rcases less with nothing | ⟨frame, next, within, short⟩
  · exact nothing
  have size : part.length < frame.length :=
    Nat.lt_of_le_of_ne within.length_le fun same => short (within.eq_of_length same)
  have sizes := congrArg List.length whole
  rw [List.length_append] at sizes
  have grows {m n : Nat} (le : m ≤ n) : (frames.take m).flatten.length ≤ (frames.take n).flatten.length :=
    (List.take_prefix_take_left le).flatten.length_le
  rcases Nat.lt_or_ge k i with less | least
  · have more := grows (Nat.succ_le_of_lt less)
    rw [flatten_take_succ next, List.length_append] at more
    omega
  · have less := grows least
    exact List.eq_nil_of_length_eq_zero (by omega)

namespace TcpLink

/-- What has been read is a number of whole frames. -/
def OnBoundary (frames : List (List UInt8)) (l : TcpLink π) : Prop := ∃ k, l.stream.consumed = (frames.take k).flatten

variable [Peer π] {l : TcpLink π} {frames : List (List UInt8)}

/-- If the request fails over the time or the medium, it has read nothing. -/
def Spared (l : TcpLink π) (r : Request) : Prop :=
  ∀ e, (l.send r).1 = .error e → e.kind ≠ .protocol → (l.send r).2.stream.consumed = l.stream.consumed

/-- From a boundary on, a request reads to a boundary, unless it drops a part of a frame. -/
theorem spared_iff_onBoundary (wellFormed : ∀ frame ∈ frames, Mbap.WellFormed frame) (start : OnBoundary frames l)
    {r : Request} (only : (l.send r).2.stream.arrived <+: frames.flatten) :
    Spared l r ↔ OnBoundary frames (l.send r).2 := by
  obtain ⟨k, start⟩ := start
  have delimited : ∀ frame ∈ frames, Framing.mbap.Delimits frame := by
    intro frame member
    obtain ⟨f, rfl⟩ := (wellFormed frame member).exists_frame
    exact f.delimits
  have settles : Framing.Settled .mbap (frames[k]? = some ·) (Framed.PartOfNext frames k) r
      (Mbap.encode l.nextTransaction r.slave) (accept l.nextTransaction r.slave) l.stream (l.send r).2.stream
      (l.send r).1 := Framed.settles_next (l := l) delimited start only
  have stays (same : (l.send r).2.stream.consumed = l.stream.consumed) : Spared l r ↔ OnBoundary frames (l.send r).2 :=
    iff_of_true (fun _ _ _ => same) ⟨k, same.trans start⟩
  unfold Spared at stays ⊢
  generalize (l.send r).1 = outcome at settles stays ⊢
  cases settles with
  | refused same => exact stays (congrArg ByteStream.consumed same)
  | unsent message written consumed kind => exact stays consumed
  | broadcast serial => nomatch serial
  | @unanswered m e part message written is consumed kind =>
    constructor
    · intro spared
      exact ⟨k, (spared e rfl kind).trans start⟩
    · rintro ⟨i, whole⟩
      have nothing : part = [] := part_eq_nil (i := i) (by rw [← whole, consumed, start]) is
      intro e _ _
      rw [consumed, nothing, List.append_nil]
  | answered message written is consumed accepted =>
    constructor
    · intro _
      refine ⟨k + 1, ?_⟩
      rw [consumed, start, flatten_take_succ is]
    · intro _ e failed kind
      rw [failed] at accepted
      exact absurd (kind_of_accept accepted) kind

theorem onBoundary_of_always {turns : List Turn} {last : Request}
    (always : Turn.Always (fun l _ => OnBoundary frames l) (turns ++ [.request last]) l) : OnBoundary frames l := by
  induction turns generalizing l with
  | nil => exact always.1
  | cons turn rest ih =>
    cases turn with
    | request r => exact always.1
    | outside act =>
      obtain ⟨k, consumed⟩ := ih always
      exact ⟨k, (l.stream.consumed_act act).symm.trans consumed⟩
    | close =>
      obtain ⟨k, consumed⟩ := ih always
      exact ⟨k, l.stream.consumed_close.symm.trans consumed⟩

/-- Frames come one after another, in pieces of any size and at any time. All requests of a session begin to read on a
boundary exactly if none before the last has dropped a part of a frame. -/
theorem always_onBoundary_iff (wellFormed : ∀ frame ∈ frames, Mbap.WellFormed frame) (start : OnBoundary frames l)
    (turns : List Turn) (last : Request) (only : (Turn.run turns l).stream.arrived <+: frames.flatten) :
    Turn.Always (fun l _ => OnBoundary frames l) (turns ++ [.request last]) l ↔ Turn.Always Spared turns l := by
  induction turns generalizing l with
  | nil => exact iff_of_true ⟨start, trivial⟩ trivial
  | cons turn rest ih =>
    cases turn with
    | request r =>
      have sent : (l.send r).2.stream.arrived <+: frames.flatten :=
        (Turn.run_arrived rest (l.send r).2).trans only
      have step := spared_iff_onBoundary wellFormed start sent
      constructor
      · rintro ⟨_, later⟩
        have boundary := onBoundary_of_always later
        exact ⟨step.mpr boundary, (ih boundary only).mp later⟩
      · rintro ⟨spared, later⟩
        exact ⟨start, (ih (step.mp spared) only).mpr later⟩
    | outside act =>
      obtain ⟨k, consumed⟩ := start
      exact ih ⟨k, (l.stream.consumed_act act).trans consumed⟩ only
    | close =>
      obtain ⟨k, consumed⟩ := start
      exact ih ⟨k, l.stream.consumed_close.trans consumed⟩ only

/-- Waits for one poll only. -/
def hurried : TcpLink Loopback := { stream := { peer := .silent }, timeout := 10 }

/-- Answers to the first two requests: five registers, and a refusal. -/
def twoFrames : List (List UInt8) :=
  [[0, 1, 0, 0, 0, 13, 1, 0x03, 10, 0, 2, 0, 0, 0, 3, 1, 0x83, 2, 0], [0, 2, 0, 0, 0, 3, 1, 0x83, 2]]

theorem wellFormed_twoFrames : ∀ frame ∈ twoFrames, Mbap.WellFormed frame := by
  intro frame member
  simp only [twoFrames, List.mem_cons, List.not_mem_nil, or_false] at member
  rcases member with rfl | rfl
  · exact ⟨⟨1, 0, 13, 1⟩, by decide⟩
  · exact ⟨⟨2, 0, 3, 1⟩, by decide⟩

def fiveRegisters : Request := { slave := 1, function := 0x03, address := 0, quantity := 5 }

/-- The first answer comes too late, but while nobody waits, in two pieces. -/
def latePieces : List Turn :=
  [.request fiveRegisters, .outside (.happen (.deliver [0, 1, 0, 0, 0, 13, 1, 0x03, 10])),
    .outside (.happen (.deliver [0, 2, 0, 0, 0, 3, 1, 0x83, 2, 0])), .request fiveRegisters]

theorem always_onBoundary_latePieces :
    (Turn.run latePieces hurried).stream.arrived <+: twoFrames.flatten ∧
      (Turn.run latePieces hurried).stream.consumed.length = 19 ∧
      (Turn.Always (fun l _ => OnBoundary twoFrames l) (latePieces ++ [.request fiveRegisters]) hurried ↔
        Turn.Always Spared latePieces hurried) := by
  have came : (Turn.run latePieces hurried).stream.arrived <+: twoFrames.flatten := by decide +kernel
  refine ⟨came, by decide +kernel, ?_⟩
  exact always_onBoundary_iff wellFormed_twoFrames ⟨0, rfl⟩ latePieces fiveRegisters came

/-- The same two pieces, but the first request still sees the first of them. -/
def splitAnswer : List Turn :=
  [.outside (.happen (.deliver [0, 1, 0, 0, 0, 13, 1, 0x03, 10])), .request fiveRegisters,
    .outside (.happen (.deliver [0, 2, 0, 0, 0, 3, 1, 0x83, 2, 0]))]

/-- A timeout inside a frame: the next request begins to read behind its ninth byte, and returns as the answer with its
own id what are register values of the first answer. -/
theorem payload_read_as_answer :
    (∀ frame ∈ twoFrames, Mbap.WellFormed frame) ∧
      (Turn.run splitAnswer hurried).stream.arrived = (twoFrames.take 1).flatten ∧
      (Turn.run splitAnswer hurried).stream.consumed.length = 9 ∧
      ¬ OnBoundary twoFrames (Turn.run splitAnswer hurried) ∧
      ((Turn.run splitAnswer hurried).send fiveRegisters).1 = .ok ⟨[0x83, 2], by decide⟩ := by
  have nine : (Turn.run splitAnswer hurried).stream.consumed.length = 9 := by decide +kernel
  refine ⟨wellFormed_twoFrames, by decide +kernel, nine, ?_, Pdu.eq_ok_of_bytes (by decide +kernel)⟩
  rintro ⟨k, consumed⟩
  rw [consumed] at nine
  match k with
  | 0 | 1 | k + 2 => nomatch nine

end TcpLink

end Modbus
