import Modbus.Proofs.Calls
import Modbus.Proofs.Request
import Modbus.Proofs.Transactions

/-! Everything that a TCP link writes in a session. It is a row of frames, one for each request that has a message, with
ids that count up, and since each header tells the size of its frame, the row can be taken apart again. -/
namespace Modbus

variable {π : Type}

theorem Pdu.pos_of_toPdu {r : Request} {m : Pdu} (message : r.toPdu = .ok m) : 0 < m.bytes.length := by
  rw [(Request.toPdu_eq_ok_iff.mp message).2]
  exact Nat.succ_pos _

namespace Mbap

theorem length_drop_lt {bytes : List UInt8} {size : Nat} (tells : expectedSize? bytes = some size) :
    (bytes.drop size).length < bytes.length := by
  obtain ⟨h, header, rfl⟩ := Option.map_eq_some_iff.mp tells
  have some : 0 < bytes.length := by
    cases bytes with
    | nil => nomatch header
    | cons first rest => exact Nat.succ_pos _
  rw [List.length_drop, Header.frameSize]
  omega

/-- Takes bytes apart into frames, each as long as its header says. Bytes without a whole header are left together. -/
def cut (bytes : List UInt8) : List (List UInt8) :=
  match _tells : expectedSize? bytes with
  | some size => bytes.take size :: cut (bytes.drop size)
  | none => if bytes.isEmpty then [] else [bytes]
  termination_by bytes.length
  decreasing_by exact length_drop_lt _tells

variable {transactionId : UInt16} {unitId : UInt8} {pdu : Pdu}

theorem expectedSize?_encode_append (rest : List UInt8) :
    expectedSize? (encode transactionId unitId pdu ++ rest) = some (encode transactionId unitId pdu).length := by
  rw [expectedSize?, header?_encode_append, Option.map_some, frameSize_encode]

theorem cut_encode_append (rest : List UInt8) :
    cut (encode transactionId unitId pdu ++ rest) = encode transactionId unitId pdu :: cut rest := by
  have tells := @expectedSize?_encode_append transactionId unitId pdu rest
  rw [cut]
  split
  · next size told =>
    obtain rfl := Option.some.inj (tells.symm.trans told)
    rw [List.take_left, List.drop_left]
  · next none => nomatch tells.symm.trans none

/-- The ids and the message of a frame. -/
def opened (frame : List UInt8) : Except Error (UInt16 × UInt8 × Pdu) :=
  (decode frame).map fun adu => (adu.header.transactionId, adu.header.unitId, adu.pdu)

theorem opened_encode (pos : 0 < pdu.bytes.length) :
    opened (encode transactionId unitId pdu) = .ok (transactionId, unitId, pdu) := by
  rw [opened, decode_encode pos]
  rfl

/-- A row of frames is taken apart into what it was made of. -/
theorem opened_cut {sent : List (UInt16 × UInt8 × Pdu)} (filled : ∀ f ∈ sent, 0 < f.2.2.bytes.length) :
    (cut (sent.map fun f => encode f.1 f.2.1 f.2.2).flatten).map opened = sent.map .ok := by
  induction sent with
  | nil =>
    rw [List.map_nil, List.flatten_nil, cut]
    rfl
  | cons f sent ih =>
    obtain ⟨some, others⟩ := List.forall_mem_cons.mp filled
    rw [List.map_cons, List.flatten_cons, cut_encode_append, List.map_cons, opened_encode some, ih others]
    rfl

end Mbap

namespace ByteStream

variable {s s' : ByteStream π}

theorem Continues.written (continues : s.Continues s') : s'.written = s.written := by
  rw [ByteStream.written, continues.writes, ByteStream.written]

theorem written_write [Peer π] (isOpen : s.isOpen = true) (works : s.faults.writeFailure = false) (bytes : List UInt8) :
    (s.write bytes).2.written = s.written ++ bytes := by
  have taken : ¬(!s.isOpen ∨ s.faults.writeFailure) := by
    rw [isOpen, works]
    nofun
  rw [write, if_neg taken]
  change (bytes :: s.writes).reverse.flatten = s.written ++ bytes
  rw [List.reverse_cons, List.flatten_concat, written]

end ByteStream

namespace TcpLink

variable [Peer π]

/-- What can be written to: the link is connected, and the stream does not refuse what is written. -/
structure Writable (l : TcpLink π) : Prop where
  connected : l.isConnected = true
  works : l.stream.faults.writeFailure = false

/-- Between the requests anything may happen that neither writes nor uses up ids. -/
structure Unwritten (l l' : TcpLink π) : Prop where
  written : l'.stream.written = l.stream.written
  transaction : l'.nextTransaction = l.nextTransaction

theorem send_of_refused {e : Error} {r : Request} (l : TcpLink π) (refused : r.toPdu = .error e) :
    (l.send r).2.stream = l.stream ∧ (l.send r).2.nextTransaction = l.nextTransaction := by
  simp only [send, exchange, refused]
  split
  · exact ⟨rfl, rfl⟩
  · exact ⟨rfl, rfl⟩

theorem send_of_accepted {l : TcpLink π} {r : Request} {m : Pdu} (writable : l.Writable) (message : r.toPdu = .ok m) :
    (l.send r).2.stream.written = l.stream.written ++ Mbap.encode l.nextTransaction r.slave m ∧
      (l.send r).2.nextTransaction = l.nextTransaction + 1 := by
  have isOpen : l.stream.isOpen = true := (Bool.and_eq_true_iff.mp writable.connected).2
  have written := ByteStream.written_write isOpen writable.works (Mbap.encode l.nextTransaction r.slave m)
  rw [← Framing.mbap.transmit_snd] at written
  simp only [send, exchange, writable.connected, message]
  split
  · next disconnected => exact absurd disconnected Bool.false_ne_true
  · split
    · next failed =>
      rw [failed] at written
      exact ⟨written, rfl⟩
    · next there sent =>
      rw [sent] at written
      have kept := (Framing.mbap.receive_continues l.timeout there).written.trans written
      split
      · next failed =>
        rw [failed] at kept
        exact ⟨kept, rfl⟩
      · next received =>
        rw [received] at kept
        split
        · exact ⟨kept, rfl⟩
        · exact ⟨kept, rfl⟩

end TcpLink

/-- The slave and the message of a request that has one. -/
def Call.message? {σ : Type} (c : Call σ) : Option (UInt8 × Pdu) := c.request.toPdu.toOption.map (c.request.slave, ·)

theorem Call.toPdu_of_message? {σ : Type} {c : Call σ} {message : UInt8 × Pdu} (has : c.message? = some message) :
    c.request.toPdu = .ok message.2 := by
  rw [message?] at has
  cases made : c.request.toPdu with
  | error e =>
    rw [made] at has
    nomatch has
  | ok m =>
    rw [made] at has
    exact congrArg (fun message => Except.ok message.2) (Option.some.inj has)

namespace TcpLink

/-- The requests that have a message: ids are counted from this one on. -/
def numbered (first : UInt16) (calls : List (Call (TcpLink π))) : List (UInt16 × UInt8 × Pdu) :=
  (calls.filterMap Call.message?).mapIdx fun i message => (first + .ofNat i, message)

theorem numbered_of_refused {first : UInt16} {c : Call (TcpLink π)} {e : Error} (refused : c.request.toPdu = .error e)
    (calls : List (Call (TcpLink π))) : numbered first (c :: calls) = numbered first calls := by
  have none : c.message? = none := by
    rw [Call.message?, refused]
    rfl
  rw [numbered, List.filterMap_cons_none none, numbered]

theorem numbered_of_accepted {first : UInt16} {c : Call (TcpLink π)} {m : Pdu} (message : c.request.toPdu = .ok m)
    (calls : List (Call (TcpLink π))) :
    numbered first (c :: calls) = (first, c.request.slave, m) :: numbered (first + 1) calls := by
  have some : c.message? = some (c.request.slave, m) := by
    rw [Call.message?, message]
    rfl
  rw [numbered, List.filterMap_cons_some some, List.mapIdx_cons, numbered]
  simp only [succ_add]
  exact congrArg (fun t => (t, c.request.slave, m) :: _) (UInt16.add_zero first)

variable [Peer π]

/-- Each request with a message adds its frame to what was written and uses up one id. -/
theorem written_session {l l' : TcpLink π} {calls : List (Call (TcpLink π))} (session : Session Unwritten l calls l')
    (writable : ∀ c ∈ calls, Writable c.link) :
    l'.stream.written = l.stream.written ++
      ((numbered l.nextTransaction calls).map fun f => Mbap.encode f.1 f.2.1 f.2.2).flatten := by
  -- On the session; the next id of the link is what the rest of the requests count from.
  induction session with
  | nil l => exact (List.append_nil _).symm
  | outside change rest ih =>
    have later := ih writable
    rwa [change.transaction, change.written] at later
  | @request l l' calls r rest ih =>
    obtain ⟨here, others⟩ := List.forall_mem_cons.mp writable
    have later := ih others
    cases message : r.toPdu with
    | error e =>
      obtain ⟨stream, transaction⟩ := l.send_of_refused message
      rw [numbered_of_refused message, ← stream, ← transaction]
      exact later
    | ok m =>
      obtain ⟨written, transaction⟩ := send_of_accepted here message
      rw [numbered_of_accepted message, List.map_cons, List.flatten_cons, ← List.append_assoc, ← written, ← transaction]
      exact later

/-- All that a fresh link writes are the frames of the requests that have a message, with the ids 1, 2 and so on, which
come round after 65536 of them. Taken apart by the sizes in their headers and decoded, they give these ids, slaves and
messages again. A request without a message writes nothing and uses up no id. -/
theorem session_frames {l l' : TcpLink π} {calls : List (Call (TcpLink π))} (fresh : l.nextTransaction = 1)
    (session : Session Unwritten l calls l') (writable : ∀ c ∈ calls, Writable c.link) :
    let sent := (calls.filterMap Call.message?).mapIdx fun i message => (UInt16.ofNat (i + 1), message)
    let bytes := (sent.map fun f => Mbap.encode f.1 f.2.1 f.2.2).flatten
    l'.stream.written = l.stream.written ++ bytes ∧
      (Mbap.cut bytes).map Mbap.opened = sent.map .ok ∧
      ∀ c ∈ calls, ∀ e, c.request.toPdu = .error e →
        c.after.stream = c.link.stream ∧ c.after.nextTransaction = c.link.nextTransaction := by
  intro sent bytes
  have counted : numbered l.nextTransaction calls = sent := by
    simp only [numbered, fresh, sent]
    congr 1
    funext i message
    rw [← Nat.add_comm 1, UInt16.ofNat_add]
    rfl
  refine ⟨?_, Mbap.opened_cut ?_, ?_⟩
  · rw [written_session session writable, counted]
  · intro f member
    obtain ⟨i, inside, rfl⟩ := List.mem_mapIdx.mp member
    obtain ⟨c, -, message⟩ := List.mem_filterMap.mp (List.getElem_mem inside)
    exact Pdu.pos_of_toPdu (Call.toPdu_of_message? message)
  · intro c _ e refused
    exact send_of_refused c.link refused

def unanswered : TcpLink Loopback := { stream := { peer := .silent } }

def readFirst (quantity : UInt16) : Request := { slave := 1, function := 0x03, address := 0, quantity }

/-- Nobody answers, and the second of three requests asks for no registers at all. -/
theorem session_frames_of_refused :
    let second := (unanswered.send (readFirst 1)).2
    let third := (second.send (readFirst 0)).2
    let last := (third.send (readFirst 2)).2
    let calls : List (Call (TcpLink Loopback)) :=
      [⟨unanswered, readFirst 1⟩, ⟨second, readFirst 0⟩, ⟨third, readFirst 2⟩]
    Session Unwritten unanswered calls last ∧ (∀ c ∈ calls, Writable c.link) ∧
      last.stream.written = [0, 1, 0, 0, 0, 6, 1, 0x03, 0, 0, 0, 1, 0, 2, 0, 0, 0, 6, 1, 0x03, 0, 0, 0, 2] ∧
      (Mbap.cut last.stream.written).map Mbap.opened =
        [(1, 1, ⟨[0x03, 0, 0, 0, 1], by decide⟩), (2, 1, ⟨[0x03, 0, 0, 0, 2], by decide⟩)].map .ok := by
  intro second third last calls
  have session : Session Unwritten unanswered calls last :=
    .request (readFirst 1) <| .request (readFirst 0) <| .request (readFirst 2) <| .nil _
  have writable : ∀ c ∈ calls, Writable c.link := by
    intro c member
    simp only [calls, List.mem_cons, List.not_mem_nil, or_false] at member
    rcases member with rfl | rfl | rfl
    · exact ⟨rfl, rfl⟩
    · exact ⟨by decide +kernel, by decide +kernel⟩
    · exact ⟨by decide +kernel, by decide +kernel⟩
  obtain ⟨written, opened, -⟩ := session_frames rfl session writable
  refine ⟨session, writable, ?_, ?_⟩
  · rw [written]
    decide +kernel
  · rw [written]
    refine opened.trans (congrArg (List.map Except.ok) ?_)
    decide +kernel

end TcpLink

end Modbus
