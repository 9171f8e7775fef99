import Modbus.Proofs.Session

/-! Transaction ids keep answers apart. As long as frames come whole and no id comes back, what a request returns was
sent in answer to this request: the answer to a request that was given up is read later, but never returned. -/
namespace Modbus

variable {π : Type}

/-- A frame of TCP with a message in it. -/
structure Mbap.Frame where
  transactionId : UInt16
  unitId : UInt8
  pdu : Pdu
  pos : 0 < pdu.bytes.length

namespace Mbap.Frame

def bytes (f : Frame) : List UInt8 := encode f.transactionId f.unitId f.pdu

theorem delimits (f : Frame) : Framing.mbap.Delimits f.bytes := delimits_encode f.pos

/-- The bytes of one of these frames. -/
def Among (came : Frame → Prop) (bytes : List UInt8) : Prop := ∃ f, came f ∧ f.bytes = bytes

theorem Among.delimits {came : Frame → Prop} (frame : List UInt8) (among : Among came frame) :
    Framing.mbap.Delimits frame := by
  obtain ⟨f, _, rfl⟩ := among
  exact f.delimits

end Mbap.Frame

namespace TcpLink

variable {transaction : UInt16} {unitId : UInt8} {f : Mbap.Frame}

theorem accept_frame : accept transaction unitId f.bytes =
    if f.transactionId ≠ transaction then .error (.transactionMismatch transaction f.transactionId)
    else if f.unitId ≠ unitId then .error (.unitMismatch unitId f.unitId)
    else .ok f.pdu := by
  have decoded : Mbap.decode f.bytes = _ := Mbap.decode_encode f.pos
  simp only [accept, decoded, bind, Except.bind, pure, Except.pure]
  split
  · rfl
  · split
    · rfl
    · rfl

theorem accept_eq_ok {answer : Pdu} (accepted : accept transaction unitId f.bytes = .ok answer) :
    f.transactionId = transaction ∧ f.unitId = unitId ∧ f.pdu = answer := by
  rw [accept_frame] at accepted
  split at accepted
  · nomatch accepted
  · next same =>
    split at accepted
    · nomatch accepted
    · next unit => exact ⟨Decidable.not_not.mp same, Decidable.not_not.mp unit, Except.ok.inj accepted⟩

variable [Peer π] {l : TcpLink π}

/-- A request uses up an id or leaves the next one as it is; one that is answered uses it up. -/
theorem nextTransaction_send (l : TcpLink π) (r : Request) :
    (l.send r).2.nextTransaction = l.nextTransaction + 1 ∨
      (l.send r).2.nextTransaction = l.nextTransaction ∧ ∃ e, (l.send r).1 = .error e := by
  simp only [send, exchange]
  split
  · exact .inr ⟨rfl, _, rfl⟩
  · split
    · exact .inr ⟨rfl, _, rfl⟩
    · split
      · exact .inl rfl
      · split
        · exact .inl rfl
        · split
          · exact .inl rfl
          · exact .inl rfl

/-- The ids that the requests of a session use up, in order. -/
def idsUsed : List Turn → TcpLink π → List UInt16
  | [], _ => []
  | turn :: rest, l =>
    let after := turn.take l
    if after.nextTransaction = l.nextTransaction then idsUsed rest after
    else l.nextTransaction :: idsUsed rest after

theorem idsUsed_append (turns more : List Turn) (l : TcpLink π) :
    idsUsed (turns ++ more) l = idsUsed turns l ++ idsUsed more (Turn.run turns l) := by
  induction turns generalizing l with
  | nil => rfl
  | cons turn rest ih =>
    simp only [List.cons_append, idsUsed, Turn.run, ih]
    split
    · rfl
    · rfl

theorem nextTransaction_take (l : TcpLink π) (turn : Turn) :
    (turn.take l).nextTransaction = l.nextTransaction ∨ (turn.take l).nextTransaction = l.nextTransaction + 1 := by
  cases turn with
  | request r => exact (l.nextTransaction_send r).symm.imp_left And.left
  | outside act => exact .inl rfl
  | close => exact .inl rfl

theorem succ_add (t : UInt16) (n : Nat) : t + 1 + .ofNat n = t + .ofNat (n + 1) := by
  rw [UInt16.add_assoc, UInt16.add_comm 1, UInt16.ofNat_add]
  rfl

/-- Ids are used up one after another, from the next one on. -/
theorem idsUsed_consecutive (turns : List Turn) (l : TcpLink π) :
    (Turn.run turns l).nextTransaction = l.nextTransaction + .ofNat (idsUsed turns l).length ∧
      ∀ k t, (idsUsed turns l)[k]? = some t → t = l.nextTransaction + .ofNat k := by
  induction turns generalizing l with
  | nil => exact ⟨(UInt16.add_zero _).symm, nofun⟩
  | cons turn rest ih =>
    obtain ⟨next, used⟩ := ih (turn.take l)
    simp only [idsUsed, Turn.run]
    split
    · next same =>
      rw [same] at next used
      exact ⟨next, used⟩
    · next other =>
      have advanced := (l.nextTransaction_take turn).resolve_left other
      rw [advanced] at next used
      refine ⟨next.trans (succ_add _ _), ?_⟩
      intro k t found
      cases k with
      | zero => exact (Option.some.inj found).symm.trans (UInt16.add_zero _).symm
      | succ k => exact (used k t found).trans (succ_add _ k)

/-- Among so few ids, each one stands once. -/
theorem idsUsed_inj {turns : List Turn} (few : (idsUsed turns l).length ≤ 65536) {i k : Nat} {t : UInt16}
    (first : (idsUsed turns l)[i]? = some t) (second : (idsUsed turns l)[k]? = some t) : i = k := by
  have consecutive := (idsUsed_consecutive turns l).2
  have same : UInt16.ofNat i = UInt16.ofNat k :=
    (UInt16.add_right_inj _).mp ((consecutive i t first).symm.trans (consecutive k t second))
  obtain ⟨inside, _⟩ := List.getElem?_eq_some_iff.mp first
  obtain ⟨within, _⟩ := List.getElem?_eq_some_iff.mp second
  have values := congrArg UInt16.toNat same
  rwa [Word.toNat_ofNat (by omega), Word.toNat_ofNat (by omega)] at values

/-- The request is answered by this frame: its id and its unit are those of the frame that was written. -/
structure Answered (l : TcpLink π) (r : Request) (f : Mbap.Frame) : Prop where
  outcome : (l.send r).1 = .ok f.pdu
  transaction : f.transactionId = l.nextTransaction
  unit : f.unitId = r.slave
  written : ∃ m, r.toPdu = .ok m ∧
    (l.send r).2.stream.writes = Mbap.encode f.transactionId f.unitId m :: l.stream.writes
  read : (l.send r).2.stream.consumed = l.stream.consumed ++ f.bytes

theorem exists_answered {came : Mbap.Frame → Prop} (carries : l.stream.Carries (Mbap.Frame.Among came)) {r : Request}
    {answer : Pdu} (ok : (l.send r).1 = .ok answer) : ∃ f, came f ∧ f.pdu = answer ∧ Answered l r f := by
  have settles : Framing.Settled .mbap (Mbap.Frame.Among came) (· = []) r (Mbap.encode l.nextTransaction r.slave)
      (accept l.nextTransaction r.slave) l.stream (l.send r).2.stream (l.send r).1 :=
    Framed.settles_whole (l := l) Mbap.Frame.Among.delimits carries r
  rw [ok] at settles
  cases settles with
  | broadcast serial => nomatch serial
  | answered message written among consumed accepted =>
    obtain ⟨f, arrived, rfl⟩ := among
    obtain ⟨transaction, unit, payload⟩ := accept_eq_ok accepted
    refine ⟨f, arrived, payload, ok.trans (congrArg _ payload.symm), transaction, unit, ⟨_, message, ?_⟩, consumed⟩
    rw [written, transaction, unit]

/-- Frames are sent only in answer to the request with their id; requests are counted by the ids that they use up. -/
def Faithful (ids : List UInt16) (answers : Mbap.Frame → Nat → Prop) : Prop :=
  ∀ f k, answers f k → ids[k]? = some f.transactionId

/-- A request of a session returns the message of a frame that came with its own id and unit. If frames are sent only
in answer to the request with their id, then it was sent in answer to this one. -/
theorem send_eq_ok_of_whole_frames {came : Mbap.Frame → Prop} (carries : l.stream.Carries (Mbap.Frame.Among came))
    {turns later : List Turn} (brings : ∀ turn ∈ turns, turn.Brings (Mbap.Frame.Among came)) {r : Request}
    (few : (idsUsed (turns ++ .request r :: later) l).length ≤ 65536) {answer : Pdu}
    (ok : ((Turn.run turns l).send r).1 = .ok answer) :
    ∃ f, came f ∧ f.pdu = answer ∧ Answered (Turn.run turns l) r f ∧
      ∀ answers, Faithful (idsUsed (turns ++ .request r :: later) l) answers →
        ∀ k, answers f k → k = (idsUsed turns l).length := by
  have now : (Turn.run turns l).stream.Carries (Mbap.Frame.Among came) :=
    Turn.run_carries (l := l) Mbap.Frame.Among.delimits carries brings
  obtain ⟨f, arrived, payload, answered⟩ := exists_answered now ok
  refine ⟨f, arrived, payload, answered, ?_⟩
  intro answers faithful k sent
  have own : (idsUsed (turns ++ .request r :: later) l)[(idsUsed turns l).length]? = some f.transactionId := by
    have used : (Turn.take (Turn.run turns l) (.request r)).nextTransaction ≠ (Turn.run turns l).nextTransaction := by
      rcases nextTransaction_send (Turn.run turns l) r with next | ⟨_, e, failed⟩
      · intro same
        have zero := (UInt16.add_right_inj _).mp ((next.symm.trans same).trans (UInt16.add_zero _).symm)
        nomatch zero
      · rw [ok] at failed
        nomatch failed
    rw [idsUsed_append, List.getElem?_append_right (Nat.le_refl _), Nat.sub_self, idsUsed, if_neg used,
      answered.transaction]
    rfl
  exact idsUsed_inj few (faithful f k sent) own

/-- An answer to the first request, which comes when it has been given up. -/
def lateAnswer : Mbap.Frame := ⟨1, 1, ⟨[0x03, 0x02, 0, 7], by decide⟩, by decide⟩

def ownAnswer : Mbap.Frame := ⟨3, 1, ⟨[0x03, 0x02, 0, 9], by decide⟩, by decide⟩

def oneRegister : Request := { slave := 1, function := 0x03, address := 0, quantity := 1 }

def silentPeer : TcpLink Loopback := { stream := { peer := .silent }, timeout := 20 }

/-- The first request times out, the second finds the answer to the first, and the third will be answered. -/
def lateSession : List Turn :=
  [.request oneRegister, .outside (.happen (.deliver lateAnswer.bytes)), .request oneRegister,
    .outside (.later 5 (.deliver ownAnswer.bytes))]

theorem send_eq_ok_of_whole_frames_lateSession :
    (idsUsed (lateSession ++ [.request oneRegister]) silentPeer).length = 3 ∧
      ((Turn.run lateSession silentPeer).send oneRegister).1 = .ok ownAnswer.pdu ∧
        ∃ f, (f = lateAnswer ∨ f = ownAnswer) ∧ f.pdu = ownAnswer.pdu ∧
          Answered (Turn.run lateSession silentPeer) oneRegister f ∧
            ∀ answers, Faithful (idsUsed (lateSession ++ [.request oneRegister]) silentPeer) answers →
              ∀ k, answers f k → k = (idsUsed lateSession silentPeer).length := by
  have three : (idsUsed (lateSession ++ [.request oneRegister]) silentPeer).length = 3 := by decide +kernel
  have returned : ((Turn.run lateSession silentPeer).send oneRegister).1 = .ok ownAnswer.pdu :=
    Pdu.eq_ok_of_bytes (by decide +kernel)
  have came : silentPeer.stream.Carries (Mbap.Frame.Among fun f => f = lateAnswer ∨ f = ownAnswer) :=
    ⟨.nil, nofun, Loopback.silent_sends⟩
  refine ⟨three, returned, send_eq_ok_of_whole_frames came ?_ (three ▸ by decide) returned⟩
  intro turn member
  simp only [lateSession, List.mem_cons, List.not_mem_nil, or_false] at member
  rcases member with rfl | rfl | rfl | rfl
  · trivial
  · exact .one ⟨lateAnswer, .inl rfl, rfl⟩
  · trivial
  · exact .one ⟨ownAnswer, .inr rfl, rfl⟩

end TcpLink

end Modbus
