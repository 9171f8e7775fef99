import Modbus.Proofs.Session

/-! Answers on a serial line are told apart by their order alone. A request that finds the answer to an earlier one,
which was given up, takes it for its own, and so does each request after it. Answers come in pieces; as long as no request
is given up inside one, each request begins to read where an answer begins. -/
namespace Modbus

variable {π : Type}

namespace Rtu

/-- A message whose function code, or byte count, says how long it is, as it does in every answer of a device. -/
structure Sized (pdu : Pdu) : Prop where
  long : 2 ≤ pdu.bytes.length
  tells : expectedSize? (0 :: pdu.bytes) = some (pdu.bytes.length + 3)

theorem sized_of_answer {f : FunctionCode} {pdu : Pdu} (answer : Device.Answer f pdu.bytes) : Sized pdu := by
  refine ⟨answer.two_le, ?_⟩
  have tells := @expectedSize?_answer 0 f pdu.bytes answer []
  rwa [List.append_nil] at tells

theorem Sized.delimits {pdu : Pdu} (sized : Sized pdu) (slave : UInt8) : Framing.rtu.Delimits (encode slave pdu) := by
  have size := @length_encode slave pdu
  have long := sized.long
  have fits : pdu.bytes.length ≤ 253 := pdu.length_le
  refine delimits_of_expectedSize? ?_ (by omega) (by unfold maxFrameSize; omega)
  obtain ⟨function, rest, bytes⟩ := List.exists_cons_of_length_pos (Nat.lt_of_lt_of_le Nat.zero_lt_two long)
  rw [bytes] at long
  obtain ⟨count, data, rfl⟩ := List.exists_cons_of_length_pos (Nat.le_of_succ_le_succ long)
  have tells := sized.tells
  rw [size, encode, bytes]
  rwa [bytes] at tells

/-- The frame of some answer, whoever sends it. -/
def Response (frame : List UInt8) : Prop := ∃ slave pdu, Sized pdu ∧ encode slave pdu = frame

theorem Response.delimits (frame : List UInt8) (response : Response frame) : Framing.rtu.Delimits frame := by
  obtain ⟨slave, pdu, sized, rfl⟩ := response
  exact sized.delimits slave

end Rtu

namespace RtuLink

theorem accept_encode {expected slave : UInt8} {pdu : Pdu} (sized : Rtu.Sized pdu) :
    accept expected (Rtu.encode slave pdu) =
      if slave = expected then .ok pdu else .error (.slaveMismatch expected slave) := by
  have decoded := @Rtu.decode_encode slave pdu (Nat.lt_of_lt_of_le Nat.zero_lt_two sized.long)
  simp only [accept, decoded, bind, Except.bind, pure, Except.pure, ne_eq, ite_not]
  split
  · rfl
  · rfl

/-- The frames of the answers to what was written, in order. -/
def answersTo (reply : Nat → Pdu) (written : List (List UInt8)) : List (List UInt8) :=
  written.mapIdx fun k frame => Rtu.encode (frame.headD 0) (reply k)

variable {l : RtuLink π} {answers : List (List UInt8)} {k : Nat}

/-- How far a link gets: answers are taken in order, none before its frame is written, and as many as frames are written
exactly if all goes well. -/
structure Keeps (answers : List (List UInt8)) (l l' : RtuLink π) (k k' : Nat) (well : Prop) : Prop where
  taken : l'.stream.consumed = (answers.take k').flatten
  behind : k' + l.stream.writes.length ≤ l'.stream.writes.length + k
  abreast : k' + l.stream.writes.length = l'.stream.writes.length + k ↔ well

namespace Keeps

variable {l' l'' : RtuLink π} {k' k'' : Nat} {well more : Prop}

theorem trans (first : Keeps answers l l' k k' well) (second : Keeps answers l' l'' k' k'' more) :
    Keeps answers l l'' k k'' (well ∧ more) := by
  have behind := first.behind
  have further := second.behind
  refine ⟨second.taken, by omega, ?_⟩
  rw [← first.abreast, ← second.abreast]
  omega

theorem still (taken : l'.stream.consumed = (answers.take k).flatten) (written : l'.stream.writes = l.stream.writes)
    (fine : well) : Keeps answers l l' k k well := by
  have same : k + l.stream.writes.length = l'.stream.writes.length + k := by rw [written, Nat.add_comm]
  exact ⟨taken, Nat.le_of_eq same, iff_of_true same fine⟩

theorem after (written : l'.stream.writes = l.stream.writes) (later : Keeps answers l' l'' k k' more) :
    Keeps answers l l'' k k' more := ⟨later.taken, written ▸ later.behind, written ▸ later.abreast⟩

end Keeps

variable [Peer π]

/-- If its frame was written, the request has taken an answer: it returns it, or refuses the slave that sent it. -/
def Served (l : RtuLink π) (r : Request) : Prop :=
  (l.send r).2.stream.writes ≠ l.stream.writes →
    ∀ e, (l.send r).1 = .error e → ∃ actual, e = .slaveMismatch r.slave actual

/-- If the request fails over the time or the medium, it has read nothing. -/
def Spared (l : RtuLink π) (r : Request) : Prop :=
  ∀ e, (l.send r).1 = .error e → e.kind ≠ .protocol → (l.send r).2.stream.consumed = l.stream.consumed

/-- A request takes the next answer, or none; then it leaves the answer to others, unless it drops a part of it. -/
theorem send_takes_next (responses : ∀ frame ∈ answers, Rtu.Response frame)
    (taken : l.stream.consumed = (answers.take k).flatten) {r : Request} (unicast : r.slave ≠ 0)
    (only : (l.send r).2.stream.arrived <+: answers.flatten) :
    (∃ frame, answers[k]? = some frame ∧ (l.send r).2.stream.consumed = (answers.take (k + 1)).flatten ∧
        (l.send r).2.stream.writes.length = l.stream.writes.length + 1 ∧ accept r.slave frame = (l.send r).1) ∨
      (Spared l r → (l.send r).2.stream.consumed = l.stream.consumed) ∧ ∃ e, (l.send r).1 = .error e ∧
        ((l.send r).2.stream.writes = l.stream.writes ∨
          (l.send r).2.stream.writes.length = l.stream.writes.length + 1 ∧ e.kind ≠ .protocol) := by
  have settles : Framing.Settled .rtu (answers[k]? = some ·) (Framed.PartOfNext answers k) r (Rtu.encode r.slave)
      (accept r.slave) l.stream (l.send r).2.stream (l.send r).1 :=
    Framed.settles_next (l := l) (fun frame member => (responses frame member).delimits) taken only
  unfold Spared
  generalize (l.send r).1 = outcome at settles ⊢
  cases settles with
  | @refused e same =>
    rw [same]
    exact .inr ⟨fun _ => rfl, e, rfl, .inl rfl⟩
  | @unsent m e message written consumed kind =>
    refine .inr ⟨fun _ => consumed, e, rfl, written.imp_right ?_⟩
    intro written
    exact ⟨congrArg List.length written, by rw [kind]; nofun⟩
  | broadcast serial toAll => exact absurd toAll unicast
  | @unanswered m e bytes message written is consumed kind =>
    exact .inr ⟨fun spared => spared e rfl kind, e, rfl, .inr ⟨congrArg List.length written, kind⟩⟩
  | @answered m frame outcome message written found consumed accepted =>
    refine .inl ⟨frame, found, ?_, congrArg List.length written, accepted⟩
    rw [consumed, taken, flatten_take_succ found]

theorem send_keeps (responses : ∀ frame ∈ answers, Rtu.Response frame)
    (taken : l.stream.consumed = (answers.take k).flatten) {r : Request} (unicast : r.slave ≠ 0) (spared : Spared l r)
    (only : (l.send r).2.stream.arrived <+: answers.flatten) :
    ∃ k', Keeps answers l (l.send r).2 k k' (Served l r) := by
  rcases send_takes_next responses taken unicast only with
    ⟨frame, found, consumed, written, accepted⟩ | ⟨stays, e, failed, unwritten | ⟨written, kind⟩⟩
  · have served : Served l r := by
      intro _ e failed
      obtain ⟨slave, pdu, sized, rfl⟩ := responses frame (List.mem_of_getElem? found)
      rw [failed, accept_encode sized] at accepted
      split at accepted
      · nomatch accepted
      · exact ⟨slave, (Except.error.inj accepted).symm⟩
    exact ⟨k + 1, consumed, by omega, iff_of_true (by omega) served⟩
  · exact ⟨k, .still ((stays spared).trans taken) unwritten fun written => absurd unwritten written⟩
  · have missed : ¬ Served l r := by
      intro served
      have wrote : (l.send r).2.stream.writes ≠ l.stream.writes := by
        intro same
        rw [same] at written
        omega
      obtain ⟨actual, rfl⟩ := served wrote e failed
      exact kind rfl
    exact ⟨k, (stays spared).trans taken, by omega, iff_of_false (by omega) missed⟩

/-- Along a session the answers taken keep up with the frames written exactly if each request is served. -/
theorem run_keeps (responses : ∀ frame ∈ answers, Rtu.Response frame)
    (taken : l.stream.consumed = (answers.take k).flatten) {turns : List Turn}
    (unicast : ∀ r, .request r ∈ turns → r.slave ≠ 0) (spared : Turn.Always Spared turns l)
    (only : (Turn.run turns l).stream.arrived <+: answers.flatten) :
    ∃ k', Keeps answers l (Turn.run turns l) k k' (Turn.Always Served turns l) := by
  induction turns generalizing l k with
  | nil => exact ⟨k, .still taken rfl trivial⟩
  | cons turn rest ih =>
    have others : ∀ r, .request r ∈ rest → r.slave ≠ 0 := fun r member => unicast r (List.mem_cons_of_mem turn member)
    cases turn with
    | request r =>
      have sent : (l.send r).2.stream.arrived <+: answers.flatten := (Turn.run_arrived rest (l.send r).2).trans only
      obtain ⟨k₁, first⟩ := send_keeps responses taken (unicast r List.mem_cons_self) spared.1 sent
      obtain ⟨k', second⟩ := ih first.taken others spared.2 only
      exact ⟨k', first.trans second⟩
    | outside act =>
      obtain ⟨k', later⟩ := ih ((l.stream.consumed_act act).trans taken) others spared only
      exact ⟨k', later.after (l.stream.act_continues act).writes⟩
    | close =>
      obtain ⟨k', later⟩ := ih (l.stream.consumed_close.trans taken) others spared only
      exact ⟨k', later.after (l.stream.happen_continues .hangUp).writes⟩

theorem getElem?_answersTo {reply : Nat → Pdu} {written : List (List UInt8)} {frame : List UInt8}
    (found : (answersTo reply written)[k]? = some frame) :
    k < written.length ∧ ∃ slave, frame = Rtu.encode slave (reply k) := by
  rw [answersTo, List.getElem?_mapIdx, Option.map_eq_some_iff] at found
  obtain ⟨request, inside, rfl⟩ := found
  exact ⟨(List.getElem?_eq_some_iff.mp inside).1, _, rfl⟩

theorem responses_answersTo {reply : Nat → Pdu} (sized : ∀ k, Rtu.Sized (reply k)) (written : List (List UInt8)) :
    ∀ frame ∈ answersTo reply written, Rtu.Response frame := by
  intro frame member
  obtain ⟨k, found⟩ := List.getElem?_of_mem member
  obtain ⟨_, slave, rfl⟩ := getElem?_answersTo found
  exact ⟨slave, reply k, sized k, rfl⟩

/-- The device answers each frame once and in order, whenever that is and in whatever pieces. If no earlier request has
dropped a part of an answer, a request returns the oldest answer that no request has taken yet: its own exactly if every
earlier request was served, and an earlier one otherwise. -/
theorem send_eq_ok_of_answers_in_order {l : RtuLink π} {reply : Nat → Pdu} (sized : ∀ k, Rtu.Sized (reply k))
    (unwritten : l.stream.writes = []) (unread : l.stream.consumed = []) {turns : List Turn} {r : Request}
    (unicast : ∀ q, .request q ∈ turns ++ [.request r] → q.slave ≠ 0) (spared : Turn.Always Spared turns l) {answer : Pdu}
    (inOrder : ((Turn.run turns l).send r).2.stream.arrived <+:
      (answersTo reply ((Turn.run turns l).send r).2.stream.writes.reverse).flatten)
    (ok : ((Turn.run turns l).send r).1 = .ok answer) :
    ∃ k ≤ (Turn.run turns l).stream.writes.length, answer = reply k ∧
      (Turn.run turns l).stream.consumed =
        ((answersTo reply ((Turn.run turns l).send r).2.stream.writes.reverse).take k).flatten ∧
      (k = (Turn.run turns l).stream.writes.length ↔ Turn.Always Served turns l) := by
  have responses := responses_answersTo sized ((Turn.run turns l).send r).2.stream.writes.reverse
  have before := (Framed.arrived_send (Turn.run turns l) r).trans inOrder
  obtain ⟨k, keeps⟩ := run_keeps (k := 0) responses unread
    (fun q member => unicast q (List.mem_append_left _ member)) spared before
  have last : r.slave ≠ 0 := unicast r (List.mem_append_right _ List.mem_cons_self)
  rcases send_takes_next responses keeps.taken last inOrder with
    ⟨frame, found, _, written, accepted⟩ | ⟨_, e, failed, _⟩
  · obtain ⟨inside, slave, rfl⟩ := getElem?_answersTo found
    have abreast := keeps.abreast
    rw [unwritten] at abreast
    rw [List.length_reverse, written] at inside
    refine ⟨k, Nat.le_of_lt_succ inside, ?_, keeps.taken, abreast⟩
    rw [accept_encode (sized k), ok] at accepted
    split at accepted
    · exact (Except.ok.inj accepted).symm
    · nomatch accepted
  · rw [ok] at failed
    nomatch failed

/-- A request that is given up inside an answer of four registers is what has to be ruled out: the next one reads the rest
of it, and finds a frame there that no device has sent. -/
example :
    let line : RtuLink Loopback := { stream := { peer := .silent }, timeout := 10 }
    let r : Request := { slave := 1, function := 0x03, address := 0, quantity := 4 }
    let answer := Rtu.encode 1 ⟨[0x03, 8, 0, 7, 1, 0x83, 2, 192, 241, 0], by decide⟩
    let torn : List Turn := [.outside (.happen (.deliver (answer.take 5))), .request r,
      .outside (.happen (.deliver (answer.drop 5)))]
    ((Turn.run torn line).send r).1.toOption.map Pdu.bytes = some [0x83, 2] := by
  decide +kernel

/-- Ten polls, a millisecond apart. -/
def serialLine : RtuLink Loopback := { stream := { peer := .silent }, timeout := 10 }

/-- A register that counts the requests. -/
def countedReply (k : Nat) : Pdu := ⟨[0x03, 0x02, 0, .ofNat k], Nat.le_of_ble_eq_true rfl⟩

theorem sized_countedReply (k : Nat) : Rtu.Sized (countedReply k) :=
  Rtu.sized_of_answer (@Device.Answer.cells .readHoldingRegisters [0, .ofNat k] rfl (Nat.le_of_ble_eq_true rfl))

def readRegister (address : UInt16) : Request := { slave := 1, function := 0x03, address, quantity := 1 }

def countedFrame (k : Nat) : List UInt8 := Rtu.encode 1 (countedReply k)

/-- The first request is answered in time, in two pieces, the second is given up. Its answer comes before the third is
sent, and the answer to the third in time. -/
def secondGivenUp : List Turn :=
  [.outside (.later 3 (.deliver ((countedFrame 0).take 4))), .outside (.later 6 (.deliver ((countedFrame 0).drop 4))),
    .request (readRegister 0), .request (readRegister 1), .outside (.happen (.deliver (countedFrame 1))),
    .outside (.later 5 (.deliver (countedFrame 2)))]

theorem spared_secondGivenUp : Turn.Always Spared secondGivenUp serialLine := by
  have first : Spared (Turn.run (secondGivenUp.take 2) serialLine) (readRegister 0) := by
    have answered : ((Turn.run (secondGivenUp.take 2) serialLine).send (readRegister 0)).1 = .ok (countedReply 0) :=
      Pdu.eq_ok_of_bytes (by decide +kernel)
    intro e failed
    rw [answered] at failed
    nomatch failed
  have second : Spared (Turn.run (secondGivenUp.take 3) serialLine) (readRegister 1) := by
    intro _ _ _
    decide +kernel
  exact ⟨first, second, trivial⟩

theorem send_eq_ok_of_answers_in_order_secondGivenUp :
    ((Turn.run secondGivenUp serialLine).send (readRegister 2)).1 = .ok (countedReply 1) ∧
      (Turn.run secondGivenUp serialLine).stream.writes.length = 2 ∧
      ∃ k ≤ (Turn.run secondGivenUp serialLine).stream.writes.length, countedReply 1 = countedReply k ∧
        (Turn.run secondGivenUp serialLine).stream.consumed =
          ((answersTo countedReply
            ((Turn.run secondGivenUp serialLine).send (readRegister 2)).2.stream.writes.reverse).take k).flatten ∧
        (k = (Turn.run secondGivenUp serialLine).stream.writes.length ↔
          Turn.Always Served secondGivenUp serialLine) := by
  have returned : ((Turn.run secondGivenUp serialLine).send (readRegister 2)).1 = .ok (countedReply 1) :=
    Pdu.eq_ok_of_bytes (by decide +kernel)
  refine ⟨returned, by decide +kernel, ?_⟩
  refine send_eq_ok_of_answers_in_order (l := serialLine) sized_countedReply rfl rfl ?_ spared_secondGivenUp
    (by decide +kernel) returned
  intro q member
  simp only [secondGivenUp, List.cons_append, List.nil_append, List.mem_cons, List.not_mem_nil, Turn.request.injEq,
    reduceCtorEq, or_false, false_or] at member
  rcases member with rfl | rfl | rfl
  · nofun
  · nofun
  · nofun

/-- The answer to the first request comes when it has been given up, the answer to the second in time. -/
def firstGivenUp : List Turn :=
  [.request (readRegister 0), .outside (.happen (.deliver (countedFrame 0))),
    .outside (.later 5 (.deliver (countedFrame 1)))]

/-- The second request returns the answer to the first. -/
theorem late_answer_returned :
    ((Turn.run firstGivenUp serialLine).send (readRegister 1)).2.stream.writes.reverse =
        [Rtu.encode 1 ⟨[0x03, 0, 0, 0, 1], by decide⟩, Rtu.encode 1 ⟨[0x03, 0, 1, 0, 1], by decide⟩] ∧
      (((Turn.run firstGivenUp serialLine).send (readRegister 1)).2.stream.advance 5).arrived =
        countedFrame 0 ++ countedFrame 1 ∧
      ((Turn.run firstGivenUp serialLine).send (readRegister 1)).1 = .ok (countedReply 0) ∧
      countedReply 0 ≠ countedReply 1 :=
  ⟨by decide +kernel, by decide +kernel, Pdu.eq_ok_of_bytes (by decide +kernel), by decide⟩

end RtuLink

end Modbus
