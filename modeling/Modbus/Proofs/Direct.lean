import Modbus.Link.Direct
import Modbus.Proofs.Action
import Modbus.Proofs.Response

/-! A client that reaches a device without a medium. Each plain operation with an admissible count is one
request, and its effect on the memory of the device is the one that its arguments name. -/
namespace Modbus

def Device.exchange (d : Device) (r : Request) : Except Error Pdu × Device :=
  match r.toPdu with
  | .error e => (.error e, d)
  | .ok pdu => (Pdu.ofBytes (d.process pdu.bytes).1, (d.process pdu.bytes).2)

theorem Device.exchange_eq_ok {d : Device} {r : Request} (acceptable : r.Acceptable) {answer : Pdu}
    (answered : answer.bytes = (d.process r.wire).1) : d.exchange r = (.ok answer, (d.process r.wire).2) := by
  obtain ⟨pdu, accepted, bytes⟩ := Request.exists_toPdu acceptable
  have message : Pdu.ofBytes (d.process r.wire).1 = .ok answer := Pdu.ofBytes_eq_ok_iff.mpr answered
  simp only [exchange, accepted, bytes, message]

namespace DirectLink

/-- Connected, and no error is in line. -/
structure Ready (l : DirectLink) : Prop where
  connected : l.connected = true
  idle : l.pendingErrors = []

theorem send_ready {l : DirectLink} (ready : l.Ready) (r : Request) :
    ∃ stats, l.send r = ((l.device.exchange r).1, { l with device := (l.device.exchange r).2, stats }) := by
  obtain ⟨device, pendingErrors, stats, connected, now⟩ := l
  obtain ⟨rfl, rfl⟩ := ready
  unfold send exchange Device.exchange
  cases r.toPdu with
  | error e => exact ⟨_, rfl⟩
  | ok pdu => exact ⟨_, rfl⟩

/-- No request succeeds over a link that is closed or has an error in line. -/
theorem ready_of_send_eq_ok {l : DirectLink} {r : Request} {response : Pdu} (ok : (l.send r).1 = .ok response) :
    l.Ready := by
  unfold send exchange at ok
  dsimp only at ok
  split at ok
  · nomatch ok
  case isFalse connected =>
    split at ok
    · nomatch ok
    case h_2 idle => exact ⟨by simpa using connected, idle⟩

/-- Over such a link the device does not even see a request. -/
theorem device_send_of_not_ready {l : DirectLink} (busy : ¬ l.Ready) (r : Request) :
    (l.send r).2.device = l.device := by
  obtain ⟨device, pendingErrors, stats, connected, now⟩ := l
  unfold send exchange
  cases connected with
  | false => rfl
  | true =>
    cases pendingErrors with
    | cons e rest => rfl
    | nil => exact absurd ⟨rfl, rfl⟩ busy

end DirectLink

namespace Client

variable {c c' c'' : Client DirectLink} {α : Type}

/-- From one client to a later one: the requests sent in between, and the memory of the device then. -/
structure Reaches (c c' : Client DirectLink) (m : Memory) (requests : List Request) : Prop where
  ready : c'.link.Ready
  memory : c'.link.device.memory = m
  sent : c'.sent = c.sent ++ requests

theorem Reaches.refl (ready : c.link.Ready) : Reaches c c c.link.device.memory [] :=
  ⟨ready, rfl, (List.append_nil _).symm⟩

theorem Reaches.trans {m m' : Memory} {xs ys : List Request} (first : Reaches c c' m xs)
    (rest : Reaches c' c'' m' ys) : Reaches c c'' m' (xs ++ ys) :=
  ⟨rest.ready, rest.memory, by rw [rest.sent, first.sent, List.append_assoc]⟩

theorem reaches_pause (ready : c.link.Ready) (ms : Nat) : Reaches c (c.pause ms) c.link.device.memory [] := by
  refine ⟨?_, ?_, by rw [sent_pause, List.append_nil]⟩
  · unfold pause
    dsimp only
    split
    · exact ⟨ready.connected, ready.idle⟩
    · exact ready
  · unfold pause
    dsimp only
    split <;> rfl

theorem perform_ask_direct (ready : c.link.Ready) {r : Request} (acceptable : r.Acceptable)
    {answer : List UInt8} (answered : (c.link.device.process r.wire).1 = answer)
    (fits : answer.length ≤ Protocol.maxPduSize) (verdict : Pdu → Except Error α) :
    (c.perform (ask r verdict)).1 = verdict ⟨answer, fits⟩ ∧
      Reaches c (c.perform (ask r verdict)).2 (c.link.device.process r.wire).2.memory [r] := by
  have exchanged : c.link.device.exchange r = (.ok ⟨answer, fits⟩, (c.link.device.process r.wire).2) :=
    Device.exchange_eq_ok acceptable answered.symm
  obtain ⟨outcome, link, sent⟩ := perform_ask c r verdict
  obtain ⟨stats, done⟩ := DirectLink.send_ready ready r
  have answered : Link.send c.link r = _ := done
  rw [answered, exchanged] at outcome link
  refine ⟨outcome, ⟨?_, ?_, sent⟩⟩
  · rw [link]
    exact ⟨ready.connected, ready.idle⟩
  · rw [link]

end Client

namespace Bank

variable {σ : Type} [Link σ]

def read : (bank : Bank) → UInt8 → UInt16 → UInt16 → Client.Action σ (List bank.Cell)
  | coils => Client.readCoils
  | discreteInputs => Client.readDiscreteInputs
  | holdingRegisters => Client.readHoldingRegisters
  | inputRegisters => Client.readInputRegisters

def request (bank : Bank) (slave : UInt8) (address quantity : UInt16) : Request :=
  { slave, function := bank.code.toByte, address, quantity }

theorem read_eq (bank : Bank) (slave : UInt8) (address quantity : UInt16) :
    (bank.read slave address quantity : Client.Action σ _) =
      Client.read bank.maxQuantity bank.parse slave bank.code.toByte address quantity := by
  cases bank <;> rfl

theorem wire_request (bank : Bank) (slave : UInt8) (address quantity : UInt16) :
    (bank.request slave address quantity).wire =
      bank.code.toByte :: (Word.bytes address ++ Word.bytes quantity) := by cases bank <;> rfl

theorem acceptable_request (bank : Bank) {slave : UInt8} {address quantity : UInt16} :
    (bank.request slave address quantity).Acceptable ↔ quantity ≠ 0 ∧ quantity ≤ bank.maxQuantity := by
  cases bank <;> exact Iff.rfl

theorem perform_read_out_of_range (bank : Bank) (c : Client σ) (slave : UInt8) (address : UInt16)
    {quantity : UInt16} (outside : quantity = 0 ∨ bank.maxQuantity < quantity) :
    c.perform (bank.read slave address quantity) = (.error (.quantityRange quantity bank.maxQuantity), c) := by
  rw [read_eq, Client.read_eq_ask, Client.checkQuantity, if_pos outside]
  exact Client.perform_bind_error (Client.perform_settled c _) _

theorem perform_read_eq_ask (bank : Bank) (c : Client σ) (slave : UInt8) (address : UInt16)
    {quantity : UInt16} (range : quantity ≠ 0 ∧ quantity ≤ bank.maxQuantity) :
    c.perform (bank.read slave address quantity) =
      c.perform (Client.ask (bank.request slave address quantity) fun response =>
        bank.parse response bank.code.toByte quantity) := by
  rw [read_eq, Client.read_eq_ask, Client.checkQuantity, if_neg (Request.not_outside_iff.mpr range)]
  exact Client.perform_bind_ok (Client.perform_settled c _) _

/-- A plain read of an allowed quantity gives the values of a mapped range, and an exception otherwise. -/
theorem perform_read (bank : Bank) {c : Client DirectLink} (ready : c.link.Ready) (slave : UInt8)
    (address : UInt16) {quantity : UInt16} (range : quantity ≠ 0 ∧ quantity ≤ bank.maxQuantity) :
    (c.perform (bank.read slave address quantity)).1 =
        bank.outcome ((c.link.device.memory.table bank).span? address.toNat quantity.toNat) ∧
      Client.Reaches c (c.perform (bank.read slave address quantity)).2 c.link.device.memory
        [bank.request slave address quantity] := by
  have processed := c.link.device.process_read bank address quantity
  rw [← wire_request bank slave] at processed
  have size : ∀ values ∈ (c.link.device.memory.table bank).span? address.toNat quantity.toNat,
      values.length = quantity.toNat := by
    intro values found
    exact Device.Table.length_of_span? found
  obtain ⟨outcome, reached⟩ := Client.perform_ask_direct ready (bank.acceptable_request.mpr range)
    (congrArg Prod.fst processed) (bank.length_readAnswer_le range.2 size)
    fun response => bank.parse response bank.code.toByte quantity
  rw [perform_read_eq_ask bank c slave address range]
  refine ⟨outcome.trans (bank.parse_readAnswer range.2 size rfl), ?_⟩
  rwa [congrArg Prod.snd processed] at reached

/-- Over any link state, a plain read succeeds only for a ready link, an allowed quantity and a mapped range. -/
theorem perform_read_eq_ok_iff (bank : Bank) {c : Client DirectLink} {slave : UInt8}
    {address quantity : UInt16} {values : List bank.Cell} :
    (c.perform (bank.read slave address quantity)).1 = .ok values ↔
      c.link.Ready ∧ (quantity ≠ 0 ∧ quantity ≤ bank.maxQuantity) ∧
        (c.link.device.memory.table bank).span? address.toNat quantity.toNat = some values := by
  constructor
  · intro ok
    by_cases range : quantity ≠ 0 ∧ quantity ≤ bank.maxQuantity
    · have ready : c.link.Ready := by
        have asked := ok
        rw [perform_read_eq_ask bank c slave address range, (Client.perform_ask ..).1] at asked
        cases answered : (Link.send c.link (bank.request slave address quantity)).1 with
        | error e => rw [answered] at asked; nomatch asked
        | ok response => exact DirectLink.ready_of_send_eq_ok answered
      refine ⟨ready, range, ?_⟩
      rw [(bank.perform_read ready slave address range).1] at ok
      cases found : (c.link.device.memory.table bank).span? address.toNat quantity.toNat with
      | none => rw [found] at ok; nomatch ok
      | some cells => rw [found] at ok; cases ok; rfl
    · rw [bank.perform_read_out_of_range c slave address (Request.outside_of_not_inside range)] at ok
      nomatch ok
  · rintro ⟨ready, range, found⟩
    rw [(bank.perform_read ready slave address range).1, found]
    rfl

end Bank

namespace Assignment

variable {σ : Type} [Link σ]

def write (slave : UInt8) : Assignment → Client.Action σ Unit
  | coil address value => Client.writeSingleCoil slave address value
  | register address value => Client.writeSingleRegister slave address value
  | coils address values => Client.writeMultipleCoils slave address values
  | registers address values => Client.writeMultipleRegisters slave address values

theorem write_eq (s : Assignment) (slave : UInt8) (admissible : s.Admissible) :
    (s.write slave : Client.Action σ Unit) = Client.write (s.request slave) := by
  cases s with
  | coil address value => rfl
  | register address value => rfl
  | coils address values => exact if_neg (by have := admissible.1; have := admissible.2; omega)
  | registers address values => exact if_neg (by have := admissible.1; have := admissible.2; omega)

theorem write_out_of_range (s : Assignment) (slave : UInt8) (outside : ¬ s.Admissible) :
    ∃ e : Error, e.kind = .invalidData ∧ (s.write slave : Client.Action σ Unit) = throw e := by
  cases s with
  | coil | register => exact absurd trivial outside
  | coils address values =>
    exact ⟨.coilCount values.length, rfl, if_pos (by simp only [Admissible] at outside; omega)⟩
  | registers address values =>
    exact ⟨.registerCount values.length, rfl, if_pos (by simp only [Admissible] at outside; omega)⟩

theorem acceptable_request (s : Assignment) (slave : UInt8) (admissible : s.Admissible) :
    (s.request slave).Acceptable := by
  have quantity {n : Nat} {maximum : UInt16} (some : 0 < n) (most : n ≤ maximum.toNat) :
      (UInt16.ofNat n ≠ 0 ∧ UInt16.ofNat n ≤ maximum) ∧ (UInt16.ofNat n).toNat = n := by
    have size : (UInt16.ofNat n).toNat = n := Word.toNat_ofNat (Nat.le_trans most (Nat.le_of_lt_succ maximum.toNat_lt))
    refine ⟨⟨?_, ?_⟩, size⟩
    · intro zero
      rw [zero] at size
      exact Nat.ne_of_lt some size
    · rwa [UInt16.le_iff_toNat_le, size]
  cases s with
  | coil address value => exact rfl
  | register address value => exact rfl
  | coils address values =>
    obtain ⟨range, size⟩ := quantity admissible.1 admissible.2
    exact ⟨range, (Bits.length_pack values).trans (congrArg _ size.symm)⟩
  | registers address values =>
    obtain ⟨range, size⟩ := quantity admissible.1 admissible.2
    exact ⟨range, (Word.length_flatMap_bytes values).trans (congrArg _ size.symm)⟩

theorem function_request (s : Assignment) (slave : UInt8) : (s.request slave).function = s.code.toByte := by
  cases s <;> rfl

/-- A plain write of an admissible count stores its values in a mapped range, and changes nothing otherwise. -/
theorem perform_write (s : Assignment) {c : Client DirectLink} (ready : c.link.Ready) (slave : UInt8)
    (admissible : s.Admissible) :
    (c.perform (s.write slave)).1 =
        (if s.Mapped c.link.device.memory then .ok ()
          else .error (.exception s.code.toByte ExceptionCode.illegalDataAddress.toByte)) ∧
      Client.Reaches c (c.perform (s.write slave)).2
        (if s.Mapped c.link.device.memory then s.apply c.link.device.memory else c.link.device.memory)
        [s.request slave] := by
  have processed := c.link.device.process_assignment slave s admissible
  have acceptable := s.acceptable_request slave admissible
  have plain : FunctionCode.isException (s.request slave).function = false := by
    rw [function_request]; exact s.code.isException_toByte
  rw [write_eq s slave admissible, Client.write_eq_ask]
  by_cases mapped : s.Mapped c.link.device.memory
  · simp only [if_pos mapped, Prod.mk.injEq] at processed ⊢
    obtain ⟨outcome, reached⟩ := Client.perform_ask_direct ready acceptable processed.1
      (Nat.le_of_ble_eq_true rfl) _
    exact ⟨outcome.trans (Response.checkEcho_echo plain rfl), processed.2 ▸ reached⟩
  · simp only [if_neg mapped, Prod.mk.injEq] at processed ⊢
    obtain ⟨outcome, reached⟩ := Client.perform_ask_direct ready acceptable processed.1
      (Nat.le_of_ble_eq_true rfl) _
    refine ⟨outcome.trans ?_, processed.2 ▸ reached⟩
    rw [function_request]
    exact Response.checkEcho_refusal rfl

end Assignment

end Modbus
