import Modbus.Proofs.Promptness
import Modbus.Proofs.Transactions

/-! What a request that was given up leaves behind. Its answer comes late and is read by the next request, whose own
answer is then read by the one after it: every later request of the link reads an answer that is as many frames old as
requests were given up. -/
namespace Modbus

variable {π : Type}

namespace ByteStream

variable {s s' : ByteStream π}

theorem Orderly.insert {entry : Scheduled} {schedule : List Scheduled}
    (orderly : schedule.Pairwise fun a b => a.due ≤ b.due) :
    (ByteStream.insert entry schedule).Pairwise fun a b => a.due ≤ b.due := by
  induction schedule with
  | nil => exact .cons nofun .nil
  | cons first rest ih =>
    obtain ⟨later, sorted⟩ := List.pairwise_cons.mp orderly
    rw [ByteStream.insert]
    split
    case isTrue sooner =>
      refine .cons (List.forall_mem_cons.mpr ⟨Nat.le_of_lt sooner, ?_⟩) orderly
      intro other member
      exact Nat.le_trans (Nat.le_of_lt sooner) (later other member)
    case isFalse not =>
      refine .cons ?_ (ih sorted)
      intro other member
      rcases mem_insert member with rfl | held
      · exact Nat.le_of_not_lt not
      · exact later other held

theorem Orderly.advance (orderly : s.Orderly) (ms : Nat) : (s.advance ms).Orderly :=
  orderly.sublist (List.dropWhile_sublist _)

theorem Orderly.happen (orderly : s.Orderly) (o : Occurrence) : (s.happen o).Orderly := by
  cases o with
  | deliver bytes => exact orderly
  | hangUp =>
    simp only [ByteStream.happen, close]
    split
    · exact orderly
    · exact orderly

theorem Orderly.act (orderly : s.Orderly) (a : Act) : (s.act a).Orderly := by
  cases a with
  | happen o => exact orderly.happen o
  | wait ms => exact orderly.advance ms
  | later delay o => exact Orderly.insert orderly
  | fault faults => exact orderly

theorem Orderly.write [Peer π] (orderly : s.Orderly) (bytes : List UInt8) : (s.write bytes).2.Orderly := by
  unfold ByteStream.write
  split
  · exact orderly
  · exact orderly

theorem Orderly.reads {part : List UInt8} (orderly : s.Orderly) (reads : s.Reads s' part) : s'.Orderly := by
  obtain ⟨queue, readings, rfl⟩ := reads.only
  exact orderly

end ByteStream

theorem Framing.orderly_await (framing : Framing) {s : ByteStream π} (orderly : s.Orderly) (timeout : Nat)
    (buffer : List UInt8) (polls : Nat) : (framing.await timeout s buffer polls).2.Orderly :=
  framing.await_kept (fun reads orderly => orderly.reads reads) (fun _ orderly => orderly.advance _) orderly timeout
    buffer polls

namespace Turn

variable {σ : Type} [Peer π] [Link σ] [Framed σ π]

theorem orderly_take {l : σ} (orderly : (Framed.stream l).Orderly) (turn : Turn) :
    (Framed.stream (turn.take l)).Orderly := by
  cases turn with
  | request r =>
    refine (Framed.exchanged l r).kept ?_ ?_ orderly
    · intro there bytes orderly
      exact orderly.write bytes
    · intro there orderly
      exact (Framed.framing σ).orderly_await orderly _ _ _
  | outside act =>
    rw [take, Framed.stream_act]
    exact orderly.act act
  | close =>
    rw [take, Framed.stream_close]
    exact orderly.happen .hangUp

theorem run_append (turns more : List Turn) (l : σ) : run (turns ++ more) l = run more (run turns l) := by
  induction turns generalizing l with
  | nil => rfl
  | cons turn rest ih => exact ih (turn.take l)

/-- The requests of a session. -/
def requests : List Turn → List Request
  | [] => []
  | request r :: rest => r :: requests rest
  | outside _ :: rest | close :: rest => requests rest

theorem requests_append (turns more : List Turn) : requests (turns ++ more) = requests turns ++ requests more := by
  induction turns with
  | nil => rfl
  | cons turn rest ih =>
    cases turn with
    | request r => exact congrArg (r :: ·) ih
    | outside act => exact ih
    | close => exact ih

end Turn

/-- The bytes of frames, one after another. -/
def Mbap.Frame.joined (frames : List Frame) : List UInt8 := (frames.map bytes).flatten

theorem Mbap.Frame.joined_take_succ {frames : List Frame} {k : Nat} {f : Frame} (next : frames[k]? = some f) :
    joined (frames.take (k + 1)) = joined (frames.take k) ++ f.bytes := by
  have bytes : (frames.map Frame.bytes)[k]? = some f.bytes := by rw [List.getElem?_map, next, Option.map_some]
  rw [joined, List.map_take, flatten_take_succ bytes, ← List.map_take]
  rfl

namespace TcpLink

open Mbap.Frame (joined)

variable [Peer π] {l : TcpLink π} {r : Request} {f : Mbap.Frame}

/-- The request is accepted and given up when its time is over, and no byte is read meanwhile. -/
structure GivenUp (l : TcpLink π) (r : Request) : Prop where
  accepted : ∃ m, r.toPdu = .ok m
  outcome : (l.send r).1 = .error (.timedOut l.timeout)
  nothing : (l.send r).2.stream.consumed = l.stream.consumed

/-- The stream when this message has been written in a frame with the next id. -/
def written (l : TcpLink π) (r : Request) (m : Pdu) : ByteStream π :=
  (l.stream.write (Mbap.encode l.nextTransaction r.slave m)).2

/-- The request is written, and at a poll within the time limit these bytes are all that ever came, and they can be
read. -/
structure InTime (l : TcpLink π) (r : Request) (came : List UInt8) : Prop where
  connected : l.isConnected = true
  sent : ∃ m p, r.toPdu = .ok m ∧
    (Framing.mbap.transmit l.stream (Mbap.encode l.nextTransaction r.slave m)).1 = .ok () ∧
    (l.timeout = 0 ∨ p * Framing.mbap.pollInterval < l.timeout) ∧
    (Framing.mbap.atPoll p (l.written r m)).Readable ∧ (Framing.mbap.atPoll p (l.written r m)).arrived = came

theorem GivenUp.nextTransaction (h : GivenUp l r) : (l.send r).2.nextTransaction = l.nextTransaction + 1 := by
  obtain ⟨⟨m, message⟩, outcome, -⟩ := h
  unfold send exchange at outcome ⊢
  rw [message] at outcome ⊢
  dsimp only at outcome ⊢
  split at outcome
  · nomatch outcome
  case isFalse connected =>
    rw [if_neg connected]
    split
    · rfl
    · split
      · rfl
      · split <;> rfl

/-- A request of which a frame is there in time reads this frame, whatever comes behind it. -/
theorem InTime.send {tail : List UInt8} (orderly : l.stream.Orderly)
    (h : InTime l r (l.stream.consumed ++ (f.bytes ++ tail))) :
    (l.send r).1 = accept l.nextTransaction r.slave f.bytes ∧
      (l.send r).2.stream.consumed = l.stream.consumed ++ f.bytes ∧
      (l.send r).2.nextTransaction = l.nextTransaction + 1 := by
  obtain ⟨connected, m, p, message, sent, early, readable, arrived⟩ := h
  have base : (l.written r m).consumed = l.stream.consumed := ByteStream.consumed_write ..
  have whole : Framing.mbap.transmit l.stream (Mbap.encode l.nextTransaction r.slave m) = (.ok (), l.written r m) :=
    Prod.ext sent (Framing.transmit_snd ..)
  rw [← base] at arrived
  have sorted : (l.written r m).Orderly := orderly.write _
  obtain ⟨frame, consumed⟩ := Framing.receive_of_arrived f.delimits sorted early readable arrived
  rw [base] at consumed
  have received : Framing.mbap.receive l.timeout (l.written r m) =
      (.ok f.bytes, (Framing.mbap.receive l.timeout (l.written r m)).2) :=
    Prod.ext frame rfl
  unfold TcpLink.send exchange
  rw [connected, message]
  dsimp only [Bool.not_true]
  rw [if_neg nofun, whole]
  dsimp only
  rw [received]
  dsimp only
  cases accept l.nextTransaction r.slave f.bytes with
  | error e => exact ⟨rfl, consumed, rfl⟩
  | ok answer => exact ⟨rfl, consumed, rfl⟩

theorem add_succ (t : UInt16) (k : Nat) : t + .ofNat k + 1 = t + .ofNat (k + 1) := by
  rw [UInt16.ofNat_add, ← UInt16.add_assoc]
  rfl

/-- Frames that answer requests whose ids follow each other, one frame for each request. -/
inductive Answers : UInt16 → List Request → List Mbap.Frame → Prop where
  | nil {t : UInt16} : Answers t [] []
  | cons {t : UInt16} {r : Request} {f : Mbap.Frame} {requests : List Request} {frames : List Mbap.Frame}
      (transaction : f.transactionId = t) (unit : f.unitId = r.slave) (rest : Answers (t + 1) requests frames) :
      Answers t (r :: requests) (f :: frames)

namespace Answers

variable {t : UInt16} {requests : List Request} {frames : List Mbap.Frame}

theorem length_eq (answers : Answers t requests frames) : frames.length = requests.length := by
  induction answers with
  | nil => rfl
  | cons transaction unit rest ih => exact congrArg (· + 1) ih

theorem of_getElem? (answers : Answers t requests frames) {k : Nat} (found : frames[k]? = some f) :
    f.transactionId = t + .ofNat k ∧ ∀ r, requests[k]? = some r → f.unitId = r.slave := by
  induction answers generalizing k with
  | nil => nomatch found
  | cons transaction unit rest ih =>
    cases k with
    | zero =>
      obtain rfl := Option.some.inj found
      refine ⟨transaction.trans (UInt16.add_zero _).symm, ?_⟩
      intro r same
      rw [← Option.some.inj same]
      exact unit
    | succ k =>
      obtain ⟨id, unit⟩ := ih found
      rw [UInt16.add_assoc, UInt16.add_comm 1, ← UInt16.add_assoc, add_succ] at id
      exact ⟨id, unit⟩

end Answers

/-- Each request of the session is written in time for one more frame: at a poll within its time limit the next frame
that is left, from number `k` on, is there with all frames before it, and perhaps with some behind it. -/
def Served (base : List UInt8) (frames : List Mbap.Frame) : Nat → List Turn → TcpLink π → Prop
  | _, [], _ => True
  | k, .request r :: rest, l =>
    (∃ j, k < j ∧ InTime l r (base ++ joined (frames.take j))) ∧
      Served base frames (k + 1) rest (Turn.take l (.request r))
  | k, turn :: rest, l => Served base frames k rest (turn.take l)

/-- A link that has read this many of the frames, with the next id for the request of this number. -/
structure Behind (base : List UInt8) (frames : List Mbap.Frame) (first : UInt16) (read asked : Nat) (l : TcpLink π) :
    Prop where
  consumed : l.stream.consumed = base ++ joined (frames.take read)
  transaction : l.nextTransaction = first + .ofNat asked
  orderly : l.stream.Orderly

section Behind

variable {base : List UInt8} {frames : List Mbap.Frame} {first : UInt16} {read asked : Nat}

theorem Behind.outside (h : Behind base frames first read asked l) {turn : Turn} (quiet : ∀ r, turn ≠ .request r) :
    Behind base frames first read asked (turn.take l) := by
  cases turn with
  | request r => exact absurd rfl (quiet r)
  | outside act =>
    exact ⟨(l.stream.consumed_act act).trans h.consumed, h.transaction,
      Turn.orderly_take (l := l) h.orderly (.outside act)⟩
  | close =>
    exact ⟨(l.stream.consumed_close).trans h.consumed, h.transaction, Turn.orderly_take (l := l) h.orderly .close⟩

/-- Requests that are given up are asked and read nothing. -/
theorem Behind.run_givenUp (h : Behind base frames first read asked l) {turns : List Turn}
    (givenUp : Turn.Always GivenUp turns l) :
    Behind base frames first read (asked + (Turn.requests turns).length) (Turn.run turns l) := by
  induction turns generalizing l asked with
  | nil => exact h
  | cons turn rest ih =>
    cases turn with
    | request r =>
      obtain ⟨now, later⟩ := givenUp
      have next : Behind base frames first read (asked + 1) (Turn.take l (.request r)) :=
        ⟨now.nothing.trans h.consumed, now.nextTransaction.trans (h.transaction ▸ add_succ first asked),
          Turn.orderly_take (l := l) h.orderly (.request r)⟩
      have done := ih next later
      rwa [Nat.add_assoc, Nat.add_comm 1] at done
    | outside act => exact ih (h.outside nofun) givenUp
    | close => exact ih (h.outside nofun) givenUp

/-- A request that is written in time for the next frame that is left reads this frame. -/
theorem Behind.send (h : Behind base frames first read asked l) (next : frames[read]? = some f) {j : Nat}
    (there : read < j) (inTime : InTime l r (base ++ joined (frames.take j))) :
    (l.send r).1 = accept l.nextTransaction r.slave f.bytes ∧
      Behind base frames first (read + 1) (asked + 1) (l.send r).2 := by
  obtain ⟨tail, rest⟩ : ∃ tail, joined (frames.take j) = joined (frames.take read) ++ (f.bytes ++ tail) := by
    refine ⟨joined ((frames.drop (read + 1)).take (j - (read + 1))), ?_⟩
    have split : frames.take j = frames.take (read + 1) ++ (frames.drop (read + 1)).take (j - (read + 1)) := by
      rw [← List.take_add, Nat.add_sub_cancel' there]
    rw [← List.append_assoc, ← Mbap.Frame.joined_take_succ next, split]
    simp only [joined, List.map_append, List.flatten_append]
  rw [rest, ← List.append_assoc, ← h.consumed] at inTime
  obtain ⟨outcome, consumed, transaction⟩ := inTime.send h.orderly
  refine ⟨outcome, ?_, transaction.trans (h.transaction ▸ add_succ first asked),
    Turn.orderly_take (l := l) h.orderly (.request r)⟩
  rw [consumed, h.consumed, List.append_assoc, Mbap.Frame.joined_take_succ next]

/-- So each of them reads one frame, and stays as far behind as it was. -/
theorem Behind.run_served (h : Behind base frames first read asked l) {turns : List Turn}
    (enough : read + (Turn.requests turns).length ≤ frames.length) (served : Served base frames read turns l) :
    Behind base frames first (read + (Turn.requests turns).length) (asked + (Turn.requests turns).length)
      (Turn.run turns l) := by
  induction turns generalizing l read asked with
  | nil => exact h
  | cons turn rest ih =>
    cases turn with
    | request r =>
      obtain ⟨⟨j, there, now⟩, later⟩ := served
      simp only [Turn.requests, List.length_cons] at enough ⊢
      obtain ⟨f, next⟩ : ∃ f, frames[read]? = some f := ⟨_, List.getElem?_eq_getElem (by omega)⟩
      have done := ih (h.send next there now).2 (by omega) later
      rwa [Nat.add_assoc, Nat.add_assoc asked, Nat.add_comm 1] at done
    | outside act => exact ih (h.outside nofun) enough served
    | close => exact ih (h.outside nofun) enough served

end Behind

theorem served_append {base : List UInt8} {frames : List Mbap.Frame} {k : Nat} {turns more : List Turn}
    (served : Served base frames k (turns ++ more) l) :
    Served base frames k turns l ∧ Served base frames (k + (Turn.requests turns).length) more (Turn.run turns l) := by
  induction turns generalizing l k with
  | nil => exact ⟨trivial, served⟩
  | cons turn rest ih =>
    cases turn with
    | request r =>
      obtain ⟨now, later⟩ := served
      obtain ⟨early, late⟩ := ih later
      refine ⟨⟨now, early⟩, ?_⟩
      rwa [Nat.add_assoc, Nat.add_comm 1] at late
    | outside act => exact ih (l := Turn.take l (.outside act)) served
    | close => exact ih (l := Turn.take l .close) served

theorem ofNat_ne_of_not_dvd {n m : Nat} (uneven : ¬ 65536 ∣ n) : UInt16.ofNat m ≠ .ofNat (n + m) := by
  intro same
  have values := congrArg UInt16.toNat same
  simp only [UInt16.toNat_ofNat'] at values
  omega

/-- First `n` requests are given up and read nothing, then the answers to all requests come whole and in order. After
`m` requests that each found the next frame in time, another one reads the frame that answers the `m`-th request of
all, whether its own answer is there or not. This is its own answer if `n` is 0. Otherwise the ids differ, unless they
have come round, and the request fails. -/
theorem send_behind (orderly : l.stream.Orderly) (late more : List Turn) (frames : List Mbap.Frame)
    (answers : Answers l.nextTransaction (Turn.requests (late ++ (more ++ [.request r]))) frames)
    (givenUp : Turn.Always GivenUp late l)
    (served : Served l.stream.consumed frames 0 (more ++ [.request r]) (Turn.run late l)) :
    let n := (Turn.requests late).length
    let m := (Turn.requests more).length
    let now := Turn.run (late ++ more) l
    ∃ old own, frames[m]? = some old ∧ frames[n + m]? = some own ∧
      (now.send r).1 = accept now.nextTransaction r.slave old.bytes ∧
      (now.send r).2.stream.consumed = l.stream.consumed ++ joined (frames.take (m + 1)) ∧
      (n = 0 → (now.send r).1 = .ok own.pdu) ∧
      (¬ 65536 ∣ n → (now.send r).1 = .error (.transactionMismatch own.transactionId old.transactionId)) := by
  intro n m now
  have size : frames.length = n + (m + 1) := by
    rw [answers.length_eq, Turn.requests_append, Turn.requests_append, List.length_append, List.length_append]
    rfl
  have start : Behind l.stream.consumed frames l.nextTransaction 0 0 l :=
    ⟨(List.append_nil _).symm, (UInt16.add_zero _).symm, orderly⟩
  obtain ⟨servedMore, ⟨j, there, inTime⟩, -⟩ := served_append served
  have waited := start.run_givenUp givenUp
  rw [Nat.zero_add] at waited
  have behind := waited.run_served (by omega) servedMore
  rw [Nat.zero_add] at behind there
  rw [← Turn.run_append] at behind inTime
  obtain ⟨old, foundOld⟩ : ∃ f, frames[m]? = some f := ⟨_, List.getElem?_eq_getElem (by omega)⟩
  obtain ⟨own, foundOwn⟩ : ∃ f, frames[n + m]? = some f := ⟨_, List.getElem?_eq_getElem (by omega)⟩
  obtain ⟨outcome, after⟩ := behind.send foundOld there inTime
  obtain ⟨oldId, -⟩ := answers.of_getElem? foundOld
  obtain ⟨ownId, ownUnit⟩ := answers.of_getElem? foundOwn
  have asked : (Turn.requests (late ++ (more ++ [.request r])))[n + m]? = some r := by
    rw [Turn.requests_append, Turn.requests_append, ← List.append_assoc,
      List.getElem?_append_right (Nat.le_of_eq List.length_append), List.length_append, Nat.sub_self]
    rfl
  have id : own.transactionId = now.nextTransaction := ownId.trans behind.transaction.symm
  refine ⟨old, own, foundOld, foundOwn, outcome, after.consumed, ?_, ?_⟩
  · intro none
    have same : old = own := by
      rw [none, Nat.zero_add] at foundOwn
      exact Option.some.inj (foundOld.symm.trans foundOwn)
    rw [outcome, accept_frame, same, if_neg (fun other => other id), if_neg (fun other => other (ownUnit r asked))]
  · intro uneven
    have different : old.transactionId ≠ now.nextTransaction := by
      rw [← id, ownId, oldId]
      exact fun same => ofNat_ne_of_not_dvd uneven ((UInt16.add_right_inj _).mp same)
    rw [outcome, accept_frame, if_pos different, id]

/-- The answer to the second request. -/
def secondAnswer : Mbap.Frame := ⟨2, 1, ⟨[0x03, 0x02, 0, 8], by decide⟩, by decide⟩

/-- When the first request has been given up its answer comes, and the answers to two more requests come in time. -/
def twoServed : List Turn :=
  [.outside (.happen (.deliver lateAnswer.bytes)), .outside (.later 5 (.deliver secondAnswer.bytes)),
    .request oneRegister, .outside (.later 5 (.deliver ownAnswer.bytes))]

theorem silentPeer_givenUp : GivenUp silentPeer oneRegister where
  accepted := ⟨⟨[0x03, 0, 0, 0, 1], by decide⟩, Pdu.eq_ok_of_bytes (by decide +kernel)⟩
  outcome := Error.eq_error_of_raised (by decide +kernel)
  nothing := by decide +kernel

theorem second_inTime :
    InTime (Turn.run ([.request oneRegister] ++ twoServed.take 2) silentPeer) oneRegister
      (joined [lateAnswer, secondAnswer]) where
  connected := by decide +kernel
  sent := ⟨⟨[0x03, 0, 0, 0, 1], by decide⟩, 1, Pdu.eq_ok_of_bytes (by decide +kernel),
    Error.eq_ok_of_not_raised (by decide +kernel), .inr (by decide +kernel),
    ⟨by decide +kernel, by decide +kernel, by decide +kernel⟩, by decide +kernel⟩

theorem third_inTime :
    InTime (Turn.run ([.request oneRegister] ++ twoServed) silentPeer) oneRegister
      (joined [lateAnswer, secondAnswer, ownAnswer]) where
  connected := by decide +kernel
  sent := ⟨⟨[0x03, 0, 0, 0, 1], by decide⟩, 1, Pdu.eq_ok_of_bytes (by decide +kernel),
    Error.eq_ok_of_not_raised (by decide +kernel), .inr (by decide +kernel),
    ⟨by decide +kernel, by decide +kernel, by decide +kernel⟩, by decide +kernel⟩

/-- The third request is refused the answer to the second, though its own is there in time. -/
theorem send_behind_twoServed :
    let now := Turn.run ([.request oneRegister] ++ twoServed) silentPeer
    InTime now oneRegister (joined [lateAnswer, secondAnswer, ownAnswer]) ∧
      (now.send oneRegister).1 = .error (.transactionMismatch 3 2) ∧
      (now.send oneRegister).2.stream.consumed = joined [lateAnswer, secondAnswer] := by
  intro now
  have answers : Answers 1 [oneRegister, oneRegister, oneRegister] [lateAnswer, secondAnswer, ownAnswer] :=
    .cons rfl rfl (.cons rfl rfl (.cons rfl rfl .nil))
  obtain ⟨old, own, foundOld, foundOwn, -, consumed, -, mismatch⟩ :=
    send_behind (l := silentPeer) (r := oneRegister) .nil [.request oneRegister] twoServed
      [lateAnswer, secondAnswer, ownAnswer] answers ⟨silentPeer_givenUp, trivial⟩
      ⟨⟨2, by decide, second_inTime⟩, ⟨3, by decide, third_inTime⟩, trivial⟩
  obtain rfl := Option.some.inj foundOld
  obtain rfl := Option.some.inj foundOwn
  refine ⟨third_inTime, mismatch (by decide), ?_⟩
  rw [consumed]
  decide +kernel

/-- The second request is answered in time and fails, since the answer to the first has come late. Without a late
answer, one that comes between the last poll and the deadline is not waited for. -/
theorem own_answer_not_returned :
    (GivenUp silentPeer oneRegister ∧ Answers 1 [oneRegister, oneRegister] [lateAnswer, secondAnswer] ∧
      InTime (Turn.run ([.request oneRegister] ++ twoServed.take 2) silentPeer) oneRegister
        (joined [lateAnswer, secondAnswer]) ∧
      ((Turn.run ([.request oneRegister] ++ twoServed.take 2) silentPeer).send oneRegister).1 =
        .error (.transactionMismatch 2 1)) ∧
    let waiting := Turn.run [.outside (.later 12 (.deliver lateAnswer.bytes))] { silentPeer with timeout := 15 }
    (waiting.stream.advance 12).arrived = lateAnswer.bytes ∧ (waiting.send oneRegister).1 = .error (.timedOut 15) := by
  refine ⟨⟨silentPeer_givenUp, .cons rfl rfl (.cons rfl rfl .nil), second_inTime, ?_⟩, by decide +kernel, ?_⟩
  · exact Error.eq_error_of_raised (by decide +kernel)
  · exact Error.eq_error_of_raised (by decide +kernel)

end TcpLink

end Modbus
