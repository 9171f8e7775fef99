import Modbus.Link.Rtu
import Modbus.Link.Tcp
import Modbus.Proofs.Decoding
import Modbus.Proofs.Exchange

/-! Sessions of a framed link: requests, and between them whatever else happens to the link and its stream. -/
namespace Modbus

variable {π : Type} {P : List UInt8 → Prop}

namespace ByteStream

variable {s s' : ByteStream π}

/-- What can happen to a stream besides requests. -/
inductive Act where
  | happen (occurrence : Occurrence)
  | later (delay : Nat) (occurrence : Occurrence)
  | wait (ms : Nat)
  | fault (faults : Faults)

def act (s : ByteStream π) : Act → ByteStream π
  | .happen occurrence => s.happen occurrence
  | .later delay occurrence => s.scheduleAfter delay occurrence
  | .wait ms => s.advance ms
  | .fault faults => { s with faults }

def Act.Brings (P : List UInt8 → Prop) : Act → Prop
  | happen occurrence | later _ occurrence => occurrence.Brings P
  | wait _ | fault _ => True

theorem consumed_act (s : ByteStream π) (a : Act) : (s.act a).consumed = s.consumed := by
  cases a with
  | happen occurrence => exact s.consumed_happen occurrence
  | wait ms => exact s.consumed_advance ms
  | later delay occurrence => rfl
  | fault faults => rfl

theorem act_continues (s : ByteStream π) (a : Act) : s.Continues (s.act a) := by
  cases a with
  | happen occurrence => exact s.happen_continues occurrence
  | wait ms => exact s.advance_continues ms
  | later delay occurrence => exact ⟨rfl, List.prefix_refl _⟩
  | fault faults => exact ⟨rfl, List.prefix_refl _⟩

theorem mem_insert {entry other : Scheduled} {schedule : List Scheduled} (member : other ∈ insert entry schedule) :
    other = entry ∨ other ∈ schedule := by
  induction schedule with
  | nil => exact .inl (List.mem_singleton.mp member)
  | cons first rest ih =>
    rw [insert] at member
    split at member
    · exact List.mem_cons.mp member
    · rcases List.mem_cons.mp member with rfl | member
      · exact .inr List.mem_cons_self
      · exact (ih member).imp_right (List.mem_cons_of_mem first)

theorem Carries.act [Peer π] (carries : s.Carries P) {a : Act} (brings : a.Brings P) : (s.act a).Carries P := by
  cases a with
  | happen occurrence => exact carries.happen brings
  | wait ms => exact carries.advance ms
  | fault faults => exact ⟨carries.pending, carries.schedule, carries.peer⟩
  | later delay occurrence =>
    refine ⟨carries.pending, ?_, carries.peer⟩
    intro entry member
    rcases mem_insert member with rfl | member
    · exact brings
    · exact carries.schedule entry member

theorem consumed_close (s : ByteStream π) : s.close.consumed = s.consumed := s.consumed_happen .hangUp

end ByteStream

theorem Pdu.eq_ok_of_bytes {outcome : Except Error Pdu} {answer : Pdu}
    (same : outcome.toOption.map Pdu.bytes = some answer.bytes) : outcome = .ok answer := by
  cases outcome with
  | error e => nomatch same
  | ok other => exact congrArg Except.ok (Pdu.ext (Option.some.inj same))

/-- An answer that is not accepted breaks the protocol. -/
theorem TcpLink.kind_of_accept {transaction : UInt16} {unitId : UInt8} {frame : List UInt8} {e : Error}
    (refused : accept transaction unitId frame = .error e) : e.kind = .protocol := by
  cases decoded : Mbap.decode frame with
  | error reason =>
    simp only [accept, decoded, bind, Except.bind] at refused
    exact Except.error.inj refused ▸ Mbap.kind_of_decode decoded
  | ok adu =>
    simp only [accept, decoded, bind, Except.bind] at refused
    split at refused
    · exact Except.error.inj refused ▸ rfl
    · split at refused
      · exact Except.error.inj refused ▸ rfl
      · nomatch refused

theorem RtuLink.kind_of_accept {slave : UInt8} {frame : List UInt8} {e : Error}
    (refused : accept slave frame = .error e) : e.kind = .protocol := by
  cases decoded : Rtu.decode frame with
  | error reason =>
    simp only [accept, decoded, bind, Except.bind] at refused
    exact Except.error.inj refused ▸ Rtu.kind_of_decode decoded
  | ok adu =>
    simp only [accept, decoded, bind, Except.bind] at refused
    split at refused
    · exact Except.error.inj refused ▸ rfl
    · nomatch refused

theorem Framing.exists_delimits (framing : Framing) : ∃ frame, framing.Delimits frame := by
  cases framing with
  | mbap => exact ⟨_, @Mbap.delimits_encode 0 0 ⟨[0], by decide⟩ (by decide)⟩
  | rtu => exact ⟨[0, 0x83, 0, 0, 0], Rtu.delimits_of_expectedSize? rfl (by decide) (by decide)⟩

/-- A link whose messages travel in frames over a stream. -/
class Framed (σ : Type) (π : outParam Type) [Peer π] [Link σ] where
  framing : Framing
  stream : σ → ByteStream π
  timeout : σ → Nat
  enclose : σ → Request → Pdu → List UInt8
  accept : σ → Request → List UInt8 → Except Error Pdu
  act : σ → ByteStream.Act → σ
  stream_act : ∀ l a, stream (act l a) = (stream l).act a
  stream_close : ∀ l, stream (Link.close l) = (stream l).close
  exchanged : ∀ l r, framing.Exchanged (timeout l) r (enclose l r) (accept l r) (stream l) (Link.send l r).1
    (stream (Link.send l r).2)

theorem TcpLink.ended [Peer π] (l : TcpLink π) (r : Request) :
    Framing.mbap.Ended l.timeout r l.isConnected false (Mbap.encode l.nextTransaction r.slave)
      (accept l.nextTransaction r.slave) l.stream l.stats (l.send r).1 (l.send r).2.stream (l.send r).2.stats := by
  simp only [send, exchange, Bool.not_eq_true']
  split
  · next apart => exact .disconnected apart
  · next together =>
    have together := Bool.of_not_eq_false together
    split
    · next refused => exact .refused refused
    · next message =>
      split
      · next failed => exact .unsent message failed
      · next sent =>
        split
        · next failed => exact .unanswered together rfl message sent failed
        · next received =>
          split
          · next accepted => exact .rejected together rfl message sent received accepted
          · next accepted => exact .answered together rfl message sent received accepted

theorem RtuLink.ended [Peer π] (l : RtuLink π) (r : Request) :
    Framing.rtu.Ended l.timeout r l.isConnected r.isBroadcast (Rtu.encode r.slave) (accept r.slave) l.stream l.stats
      (l.send r).1 (l.send r).2.stream (l.send r).2.stats := by
  simp only [send, exchange, Bool.not_eq_true']
  split
  · next apart => exact .disconnected apart
  · next together =>
    have together := Bool.of_not_eq_false together
    split
    · next refused => exact .refused refused
    · next message =>
      split
      · next failed => exact .unsent message failed
      · next sent =>
        split
        · next unheard => exact .broadcast together unheard message sent
        · next heard =>
          have heard := Bool.eq_false_iff.mpr heard
          split
          · next failed => exact .unanswered together heard message sent failed
          · next received =>
            split
            · next accepted => exact .rejected together heard message sent received accepted
            · next accepted => exact .answered together heard message sent received accepted

theorem TcpLink.exchanged [Peer π] (l : TcpLink π) (r : Request) :
    Framing.mbap.Exchanged l.timeout r (Mbap.encode l.nextTransaction r.slave) (accept l.nextTransaction r.slave)
      l.stream (l.send r).1 (l.send r).2.stream := .of_ended (l.ended r) nofun

theorem RtuLink.exchanged [Peer π] (l : RtuLink π) (r : Request) :
    Framing.rtu.Exchanged l.timeout r (Rtu.encode r.slave) (accept r.slave) l.stream (l.send r).1
      (l.send r).2.stream := by
  refine .of_ended (l.ended r) ?_
  intro toAll
  rw [Request.isBroadcast, Bool.and_eq_true, beq_iff_eq] at toAll
  exact ⟨rfl, toAll.1⟩

instance [Peer π] : Framed (TcpLink π) π where
  framing := .mbap
  stream := TcpLink.stream
  timeout := TcpLink.timeout
  enclose l r := Mbap.encode l.nextTransaction r.slave
  accept l r := TcpLink.accept l.nextTransaction r.slave
  act l a := { l with stream := l.stream.act a }
  stream_act _ _ := rfl
  stream_close _ := rfl
  exchanged := TcpLink.exchanged

instance [Peer π] : Framed (RtuLink π) π where
  framing := .rtu
  stream := RtuLink.stream
  timeout := RtuLink.timeout
  enclose _ r := Rtu.encode r.slave
  accept _ r := RtuLink.accept r.slave
  act l a := { l with stream := l.stream.act a }
  stream_act _ _ := rfl
  stream_close _ := rfl
  exchanged := RtuLink.exchanged

namespace Framed

variable {σ : Type} [Peer π] [Link σ] [Framed σ π]

/-- What a request leaves of a link, if these are the bytes that it can wait for. -/
def Settles (whole part : List UInt8 → Prop) (l : σ) (r : Request) : Prop :=
  (framing σ).Settled whole part r (enclose l r) (accept l r) (stream l) (stream (Link.send l r).2) (Link.send l r).1

theorem arrived_send (l : σ) (r : Request) : (stream l).arrived <+: (stream (Link.send l r).2).arrived :=
  (exchanged l r).arrived

/-- Of whole frames, a request takes one or none. -/
theorem settles_whole {l : σ} (delimits : ∀ frame, P frame → (framing σ).Delimits frame) (carries : (stream l).Carries P)
    (r : Request) : Settles P (· = []) l r := by
  refine (exchanged l r).settled ?_
  intro bytes same
  have received := (Framing.await_whole delimits (carries.write bytes) (timeout l)
    ((framing σ).polls (timeout l) ((stream l).write bytes).2)).2
  rw [← Framing.receive, ByteStream.consumed_write, same] at received
  exact received

/-- Of frames in pieces, a request takes the next one or loses a part of it. -/
theorem settles_frame {l : σ} {frame tail : List UInt8} (delimits : (framing σ).Delimits frame) {r : Request}
    (fits : (stream (Link.send l r).2).arrived <+: (stream l).consumed ++ (frame ++ tail)) :
    Settles (· = frame) (fun part => part <+: frame ∧ part ≠ frame) l r := by
  refine (exchanged l r).settled ?_
  intro bytes same
  have base := (stream l).consumed_write bytes
  have received := Framing.receive_frame_or_part (s := ((stream l).write bytes).2) delimits (timeout l)
    (by rwa [base, same])
  rwa [base, same] at received

/-- Less than the next frame of a row: nothing, or a part of it. -/
def PartOfNext (frames : List (List UInt8)) (k : Nat) (part : List UInt8) : Prop :=
  part = [] ∨ ∃ frame, frames[k]? = some frame ∧ part <+: frame ∧ part ≠ frame

/-- Of frames in a row, in pieces, a request takes the next one or loses a part of it. Behind the last one it takes
nothing. -/
theorem settles_next {l : σ} {frames : List (List UInt8)} {k : Nat}
    (delimited : ∀ frame ∈ frames, (framing σ).Delimits frame) (taken : (stream l).consumed = (frames.take k).flatten)
    {r : Request} (only : (stream (Link.send l r).2).arrived <+: frames.flatten) :
    Settles (frames[k]? = some ·) (PartOfNext frames k) l r := by
  cases next : frames[k]? with
  | some frame =>
    obtain ⟨inside, found⟩ := List.getElem?_eq_some_iff.mp next
    have row : frames.flatten = (stream l).consumed ++ (frame ++ (frames.drop (k + 1)).flatten) := by
      rw [taken, ← found, ← List.flatten_cons, ← List.drop_eq_getElem_cons inside, ← List.flatten_append,
        List.take_append_drop]
    refine (settles_frame (delimited frame (List.mem_of_getElem? next)) (row ▸ only)).imp ?_ ?_
    · rintro _ _ rfl
      rfl
    · intro part _ short
      exact .inr ⟨frame, next, short⟩
  | none =>
    -- Any frame will do to wait for, since there are no bytes left for it.
    obtain ⟨frame, delimits⟩ := (framing σ).exists_delimits
    rw [← List.take_of_length_le (List.getElem?_eq_none_iff.mp next), ← taken] at only
    have nothing {bytes : List UInt8} (more : (stream (Link.send l r).2).consumed = (stream l).consumed ++ bytes) :
        bytes = [] := by
      have size := ((List.prefix_append _ _).trans only).length_le
      rw [more, List.length_append] at size
      exact List.eq_nil_of_length_eq_zero (by omega)
    have fits := only.trans (List.prefix_append _ (frame ++ []))
    refine (settles_frame delimits fits).imp ?_ ?_
    · rintro _ more rfl
      exact absurd (nothing more) delimits.ne_nil
    · intro part more _
      exact .inl (nothing more)

end Framed

/-- A step of a session. -/
inductive Turn where
  | request (r : Request)
  | outside (act : ByteStream.Act)
  | close

namespace Turn

def Brings (P : List UInt8 → Prop) : Turn → Prop
  | outside act => act.Brings P
  | request _ | close => True

variable {σ : Type} [Peer π] [Link σ] [Framed σ π]

def take (l : σ) : Turn → σ
  | request r => (Link.send l r).2
  | outside act => Framed.act l act
  | close => Link.close l

def run : List Turn → σ → σ
  | [], l => l
  | turn :: rest, l => run rest (turn.take l)

/-- Each request of the session is made of a link with which it has this property. -/
def Always (p : σ → Request → Prop) : List Turn → σ → Prop
  | [], _ => True
  | request r :: rest, l => p l r ∧ Always p rest ((request r).take l)
  | turn :: rest, l => Always p rest (turn.take l)

theorem take_arrived (l : σ) (turn : Turn) :
    (Framed.stream l).arrived <+: (Framed.stream (turn.take l)).arrived := by
  cases turn with
  | request r => exact Framed.arrived_send l r
  | outside act =>
    rw [take, Framed.stream_act]
    exact ((Framed.stream l).act_continues act).arrived
  | close =>
    rw [take, Framed.stream_close]
    exact ((Framed.stream l).happen_continues .hangUp).arrived

theorem run_arrived (turns : List Turn) (l : σ) :
    (Framed.stream l).arrived <+: (Framed.stream (run turns l)).arrived := by
  induction turns generalizing l with
  | nil => exact List.prefix_refl _
  | cons turn rest ih => exact (turn.take_arrived l).trans (ih (turn.take l))

theorem take_carries {l : σ} (delimits : ∀ frame, P frame → (Framed.framing σ).Delimits frame)
    (carries : (Framed.stream l).Carries P) {turn : Turn} (brings : turn.Brings P) :
    (Framed.stream (turn.take l)).Carries P := by
  cases turn with
  | request r => exact (Framed.exchanged l r).carries delimits carries
  | outside act =>
    rw [take, Framed.stream_act]
    exact carries.act brings
  | close =>
    rw [take, Framed.stream_close]
    exact carries.happen (o := .hangUp) trivial

theorem run_carries {l : σ} (delimits : ∀ frame, P frame → (Framed.framing σ).Delimits frame)
    (carries : (Framed.stream l).Carries P) {turns : List Turn} (brings : ∀ turn ∈ turns, turn.Brings P) :
    (Framed.stream (run turns l)).Carries P := by
  induction turns generalizing l with
  | nil => exact carries
  | cons turn rest ih =>
    refine ih (take_carries delimits carries (brings turn List.mem_cons_self)) ?_
    intro other member
    exact brings other (List.mem_cons_of_mem turn member)

end Turn

end Modbus
