import Modbus.Proofs.PlannedWrites
import Modbus.Proofs.ReadBack
import Modbus.Proofs.Transparency
import Modbus.Proofs.UntrustedReads

/-! What a client asks a device. Each request that an operation hands over is one read or one write of what its
arguments name, it has a message, and the message is the one that is built directly from these arguments. -/
namespace Modbus

/-- The message of a write, built from its address and values. -/
def Assignment.message : Assignment → Except Error Pdu
  | coil address value => Pdu.writeCoilRequest address value
  | register address value => Pdu.writeRegisterRequest address value
  | coils address values => Pdu.writeCoilsRequest address values
  | registers address values => Pdu.writeRegistersRequest address values

theorem Assignment.message_eq_ok_iff {s : Assignment} (admissible : s.Admissible) (slave : UInt8) {m : Pdu} :
    s.message = .ok m ↔ m.bytes = (s.request slave).wire := by
  cases s with
  | coil address value =>
    rw [message, Pdu.writeCoilRequest, Pdu.assemble_eq_ok_iff]
    rfl
  | register address value =>
    rw [message, Pdu.writeRegisterRequest, Pdu.assemble_eq_ok_iff]
    rfl
  | coils address values =>
    have inside : ¬(values.length = 0 ∨ Protocol.maxWriteCoils.toNat < values.length) := by
      obtain ⟨some, most⟩ := admissible
      omega
    rw [message, Pdu.writeCoilsRequest, if_neg inside, Pdu.assemble_eq_ok_iff]
    simp [Pdu.Part.bytes, Request.wire, request, code]
  | registers address values =>
    have inside : ¬(values.length = 0 ∨ Protocol.maxWriteRegisters.toNat < values.length) := by
      obtain ⟨some, most⟩ := admissible
      omega
    have size : values.length * 2 = (values.flatMap Word.bytes).length := by
      rw [Word.length_flatMap_bytes, Nat.mul_comm]
    rw [message, Pdu.writeRegistersRequest, if_neg inside, Pdu.assemble_eq_ok_iff, size]
    simp [Pdu.Part.bytes, Request.wire, request, code, List.flatMap_map]

/-- One read of cells in a row, or one write. -/
inductive Query where
  | read (slave : UInt8) (bank : Bank) (address quantity : UInt16)
  | write (slave : UInt8) (assignment : Assignment)
  deriving DecidableEq

namespace Query

/-- As the client puts it to the link. -/
def request : Query → Request
  | read slave bank address quantity => bank.request slave address quantity
  | write slave assignment => assignment.request slave

/-- Built directly, without a request. -/
def message : Query → Except Error Pdu
  | read _ bank address quantity => Pdu.readRequest bank.code.toByte address quantity
  | write _ assignment => assignment.message

/-- One request can carry what is asked for. -/
def Admissible : Query → Prop
  | read _ bank _ quantity => quantity ≠ 0 ∧ quantity ≤ bank.maxQuantity
  | write _ assignment => assignment.Admissible

variable {q : Query}

theorem acceptable_request (admissible : q.Admissible) : q.request.Acceptable := by
  cases q with
  | read slave bank address quantity => exact bank.acceptable_request.mpr admissible
  | write slave assignment => exact assignment.acceptable_request slave admissible

/-- An admissible query has a message, the same one whether it is built from the request or directly. -/
theorem exists_message (admissible : q.Admissible) : ∃ m, q.request.toPdu = .ok m ∧ q.message = .ok m := by
  obtain ⟨m, accepted, wire⟩ := Request.exists_toPdu (acceptable_request admissible)
  refine ⟨m, accepted, ?_⟩
  cases q with
  | read slave bank address quantity =>
    have isRead : FunctionCode.isRead bank.code.toByte = true := by cases bank <;> rfl
    exact (Request.readRequest_eq_ok_iff isRead).mpr ⟨admissible, wire.trans (bank.wire_request slave address quantity)⟩
  | write slave assignment => exact (assignment.message_eq_ok_iff admissible slave).mpr wire

end Query

namespace Client

variable {σ α β : Type} {c c' : Client σ} {queries more : List Query}

/-- A client that has come to `done` has asked the first few of these queries, each with the message that is built for it
directly, and all of them if it succeeded. -/
def Asks (queries : List Query) (c : Client σ) (done : Except Error α × Client σ) : Prop :=
  ∃ asked, asked <+: queries ∧ done.2.sent = c.sent ++ asked.map Query.request ∧
    (∀ q ∈ asked, ∃ m, q.request.toPdu = .ok m ∧ q.message = .ok m) ∧ ∀ x, done.1 = .ok x → asked = queries

namespace Asks

theorem refused (silent : c'.sent = c.sent) (e : Error) : Asks queries c ((.error e : Except Error α), c') := by
  refine ⟨[], List.nil_prefix, ?_, ?_, ?_⟩
  · rw [silent, List.map_nil, List.append_nil]
  · intro q held
    nomatch held
  · intro x ok
    nomatch ok

/-- A result that is known already needs no query. -/
theorem settled (outcome : Except Error α) (c : Client σ) : Asks [] c (outcome, c) := by
  cases outcome with
  | error e => exact refused rfl e
  | ok x =>
    refine ⟨[], List.prefix_refl [], (List.append_nil _).symm, ?_, fun _ _ => rfl⟩
    intro q held
    nomatch held

/-- After the first queries the others. -/
theorem andThen {x : α} {done : Except Error β × Client σ} (first : Asks queries c ((.ok x : Except Error α), c'))
    (rest : Asks more c' done) : Asks (queries ++ more) c done := by
  obtain ⟨asked, -, sent, built, whole⟩ := first
  obtain ⟨later, begins, sent', built', whole'⟩ := rest
  obtain rfl := whole x rfl
  refine ⟨asked ++ later, (List.prefix_append_right_inj asked).mpr begins, ?_, ?_, ?_⟩
  · rw [sent', sent, List.map_append, List.append_assoc]
  · exact List.forall_mem_append.mpr ⟨built, built'⟩
  · intro y ok
    rw [whole' y ok]

/-- Nothing more is asked after an error. -/
theorem failed {e : Error} (first : Asks queries c ((.error e : Except Error α), c')) (more : List Query) :
    Asks (queries ++ more) c ((.error e : Except Error β), c') := by
  obtain ⟨asked, begins, sent, built, -⟩ := first
  exact ⟨asked, begins.trans (List.prefix_append queries more), sent, built, fun _ ok => nomatch ok⟩

theorem of_sent_eq {done : Except Error α × Client σ} (asks : Asks queries c done) (same : c.sent = c'.sent) :
    Asks queries c' done := by
  obtain ⟨asked, begins, sent, built, whole⟩ := asks
  exact ⟨asked, begins, same ▸ sent, built, whole⟩

/-- Another outcome for the same client, which is a success only if the first one was. -/
theorem of_same {done : Except Error α × Client σ} {done' : Except Error β × Client σ} (asks : Asks queries c done)
    (same : done'.2 = done.2) (ok : ∀ y, done'.1 = .ok y → ∃ x, done.1 = .ok x) : Asks queries c done' := by
  obtain ⟨asked, begins, sent, built, whole⟩ := asks
  refine ⟨asked, begins, same ▸ sent, built, ?_⟩
  intro y succeeded
  obtain ⟨x, first⟩ := ok y succeeded
  exact whole x first

theorem bind {a : Action σ α} {f : α → Action σ β} (first : Asks queries c (c.perform a))
    (rest : ∀ x c', Asks more c' (c'.perform (f x))) : Asks (queries ++ more) c (c.perform (a >>= f)) := by
  rcases done : c.perform a with ⟨e | x, c'⟩
  · rw [perform_bind_error done]
    exact (done ▸ first).failed more
  · rw [perform_bind_ok done]
    exact (done ▸ first).andThen (rest x c')

/-- What is made of the result needs no more queries. -/
theorem andSettle {a : Action σ α} (asks : Asks queries c (c.perform a)) (outcome : α → Except Error β) :
    Asks queries c (c.perform (a >>= fun x => Client.settled (outcome x))) := by
  have whole := asks.bind (f := fun x => Client.settled (outcome x)) fun x c' => settled (outcome x) c'
  rwa [List.append_nil] at whole

variable [Link σ]

theorem ask {q : Query} (admissible : q.Admissible) (verdict : Pdu → Except Error α) :
    Asks [q] c (c.perform (Client.ask q.request verdict)) := by
  refine ⟨[q], List.prefix_refl [q], (perform_ask c q.request verdict).2.2, ?_, fun _ _ => rfl⟩
  intro q' held
  rw [List.mem_singleton.mp held]
  exact q.exists_message admissible

theorem read (bank : Bank) (slave : UInt8) (address quantity : UInt16) (c : Client σ) :
    Asks [.read slave bank address quantity] c (c.perform (bank.read slave address quantity)) := by
  by_cases range : quantity ≠ 0 ∧ quantity ≤ bank.maxQuantity
  · rw [bank.perform_read_eq_ask c slave address range]
    exact ask (q := .read slave bank address quantity) range _
  · rw [bank.perform_read_out_of_range c slave address (Request.outside_of_not_inside range)]
    exact refused rfl _

theorem write (s : Assignment) (slave : UInt8) (c : Client σ) :
    Asks [.write slave s] c (c.perform (s.write slave)) := by
  by_cases admissible : s.Admissible
  · rw [s.write_eq slave admissible, write_eq_ask]
    exact ask (q := .write slave s) admissible _
  · obtain ⟨e, -, thrown⟩ := s.write_out_of_range slave admissible (σ := σ)
    rw [thrown, perform_throw]
    exact refused rfl e

/-- Chunk after chunk, each with a query of its own. -/
theorem readSpans (bank : Bank) (slave : UInt8) (stopped : σ → Bool) (delay : Nat) (spans : List Chunk.Span)
    (chunks : List (List bank.Cell)) (c : Client σ) :
    Asks (spans.map fun span => .read slave bank span.start span.count) c
      (Chunk.readSpans (bank.reader slave stopped) delay spans chunks c) := by
  induction spans generalizing c chunks with
  | nil => exact settled _ c
  | cons span spans ih =>
    have silent : (Bank.rested c delay chunks.isEmpty).sent = c.sent := Bank.sent_rested c delay chunks.isEmpty
    have first := read bank slave span.start span.count (Bank.rested c delay chunks.isEmpty)
    rw [Bank.readSpans_cons]
    split
    · exact refused silent _
    · generalize (Bank.rested c delay chunks.isEmpty).perform (bank.read slave span.start span.count) = fetched
        at first ⊢
      obtain ⟨e | values, c'⟩ := fetched
      · exact (first.failed _).of_sent_eq silent
      · exact (first.andThen (ih (values :: chunks) c')).of_sent_eq silent

theorem writeInTurn (delay : Nat) {writes : List (UInt8 × Assignment)} (admissible : ∀ w ∈ writes, w.2.Admissible)
    (issued : Bool) (c : Client σ) :
    Asks (writes.map fun w => .write w.1 w.2) c (c.perform (Client.writeInTurn delay writes issued)) := by
  obtain ⟨k, -, sent, whole⟩ := exists_sent_writeInTurn delay writes admissible issued c
  refine ⟨(writes.take k).map fun w => .write w.1 w.2, (List.take_prefix k writes).map _, ?_, ?_, ?_⟩
  · rw [sent, List.map_map]
    rfl
  · intro q held
    obtain ⟨w, member, rfl⟩ := List.mem_map.mp held
    exact Query.exists_message (q := .write w.1 w.2) (admissible w (List.mem_of_mem_take member))
  · intro x ok
    rw [whole x ok, List.take_length]

end Asks

end Client

namespace Bank

/-- The table that a function code reads. -/
def ofByte? (function : UInt8) : Option Bank :=
  match FunctionCode.ofByte? function with
  | some .readCoils => some coils
  | some .readDiscreteInputs => some discreteInputs
  | some .readHoldingRegisters => some holdingRegisters
  | some .readInputRegisters => some inputRegisters
  | _ => none

theorem code_of_ofByte? {function : UInt8} {bank : Bank} (reads : ofByte? function = some bank) :
    function = bank.code.toByte := by
  cases code : FunctionCode.ofByte? function with
  | none =>
    rw [ofByte?, code] at reads
    nomatch reads
  | some f =>
    rw [ofByte?, code] at reads
    have byte := FunctionCode.ofByte?_eq_some_iff.mp code
    cases f with
    | readCoils | readDiscreteInputs | readHoldingRegisters | readInputRegisters =>
      obtain rfl := Option.some.inj reads
      exact byte
    | _ => nomatch reads

theorem not_isRead_of_ofByte? {function : UInt8} (other : ofByte? function = none) :
    FunctionCode.isRead function = false := by
  unfold ofByte? at other
  unfold FunctionCode.isRead
  cases code : FunctionCode.ofByte? function with
  | none => rfl
  | some f =>
    rw [code] at other
    cases f with
    | readCoils | readDiscreteInputs | readHoldingRegisters | readInputRegisters => nomatch other
    | _ => rfl

variable {σ : Type} [Link σ] {tag : String}

theorem readValue_of_unknown (bank : Bank) (unknown : bank.width? tag = none) (slave : UInt8) (address : UInt16)
    (bit : UInt8) (order : ByteOrder) :
    (Client.readValue slave bank.code.toByte address tag bit order : Client.Action σ Value) =
      throw (.unsupportedType tag) := by
  cases bank with
  | coils | discreteInputs => nomatch unknown
  | holdingRegisters | inputRegisters =>
    unfold Client.readValue
    rw [Option.map_eq_none_iff.mp unknown]
    rfl

end Bank

namespace Operation

/-- What an operation asks, one query after another. What is asked in a raw request is up to whoever makes it. -/
def queries : Operation → List Query
  | read bank slave address quantity => [.read slave bank address quantity]
  | readChunked bank slave address quantity limits _ =>
    match Chunk.plan address quantity (bank.ceiling limits) with
    | .error _ => []
    | .ok spans => spans.map fun span => .read slave bank span.start span.count
  | write assignment slave => [.write slave assignment]
  | readValue slave function address tag _ _ =>
    match Bank.ofByte? function with
    | none => []
    | some bank => (bank.width? tag).toList.map fun width => .read slave bank address (.ofNat width)
  | writeValue slave address value order => [.write slave (.ofWords address (value.encode order))]
  | writeBatch batch limits => (batch.plan limits).writes.map fun w => .write w.1 w.2
  | execute _ => []

variable {σ : Type} [Link σ]

theorem asks_readValue (slave function : UInt8) (address : UInt16) (tag : String) (bit : UInt8) (order : ByteOrder)
    (c : Client σ) :
    Client.Asks (queries (.readValue slave function address tag bit order)) c
      (c.perform (Client.readValue slave function address tag bit order)) := by
  rw [queries]
  cases reads : Bank.ofByte? function with
  | none =>
    rw [Client.readValue, Bank.not_isRead_of_ofByte? reads]
    exact .refused rfl _
  | some bank =>
    obtain rfl := Bank.code_of_ofByte? reads
    dsimp only
    cases known : bank.width? tag with
    | none =>
      rw [bank.readValue_of_unknown known]
      exact .refused rfl _
    | some width =>
      rw [bank.readValue_eq known]
      exact (Client.Asks.read bank slave address (.ofNat width) c).andSettle _

theorem asks_readChunked (bank : Bank) (slave : UInt8) (address quantity : UInt16) (limits : Limits) (scene : Scene → Bool)
    (stopped : σ → Bool) (c : Client σ) :
    Client.Asks (queries (.readChunked bank slave address quantity limits scene)) c
      (c.perform (bank.readChunked slave address quantity limits stopped)) := by
  rw [queries, bank.perform_readChunked, Chunk.read]
  cases Chunk.plan address quantity (bank.ceiling limits) with
  | error e => exact .refused rfl e
  | ok spans => exact .readSpans bank slave stopped limits.delayMs spans [] c

theorem asks_writeBatch (batch : Batch) (limits : Limits) (c : Client σ) :
    Client.Asks (queries (.writeBatch batch limits)) c (c.perform (Client.writeBatch batch limits)) := by
  have admissible : ∀ w ∈ (batch.plan limits).writes, w.2.Admissible := fun _ => Batch.admissible_writes
  obtain ⟨after, ok⟩ := Client.perform_writeBatch batch limits c
  refine (Client.Asks.writeInTurn limits.delayMs admissible false c).of_same after ?_
  intro done succeeded
  exact (ok.mp succeeded).2

/-- Over any link, whatever it does, an operation hands over the requests of the first few of its queries, and of all of
them if it succeeds. Each of these requests has a message, and it is the one that is built directly from the same address
and the same quantity or values. The requests noted as sent are those that the link was given, by
`Operation.follows_runAll`. -/
theorem requests_of_run (operation : Operation) (raw : ∀ r, operation ≠ .execute r) (scene : σ → Scene) (c : Client σ) :
    let done := c.perform (operation.run scene)
    ∃ asked, asked <+: operation.queries ∧ done.2.sent = c.sent ++ asked.map Query.request ∧
      (∀ q ∈ asked, ∃ m, q.request.toPdu = .ok m ∧ q.message = .ok m) ∧
      ∀ x, done.1 = .ok x → asked = operation.queries := by
  intro done
  change Client.Asks operation.queries c done
  cases operation with
  | read bank slave address quantity => exact (Client.Asks.read bank slave address quantity c).andSettle _
  | readChunked bank slave address quantity limits stopped =>
    exact (asks_readChunked bank slave address quantity limits stopped (fun l => stopped (scene l)) c).andSettle _
  | write assignment slave => exact (Client.Asks.write assignment slave c).andSettle _
  | readValue slave function address tag bit order =>
    exact (asks_readValue slave function address tag bit order c).andSettle _
  | writeValue slave address value order =>
    have words := Client.Asks.write (.ofWords address (value.encode order)) slave c
    rw [← Client.writeWords_eq] at words
    exact words.andSettle _
  | writeBatch batch limits => exact (asks_writeBatch batch limits c).andSettle _
  | execute r => exact absurd rfl (raw r)

def twoCoils : Client DirectLink :=
  { link := { device := { coils := (Device.Table.empty.set 0 true).set 1 false } } }

def oneByOne : Operation := .readChunked .coils 1 0 2 { maxReadCoils := 1 } fun _ => false

theorem requests_of_run_one_by_one :
    (∀ r, oneByOne ≠ .execute r) ∧
      (twoCoils.perform (oneByOne.run DirectLink.scene)).2.sent = [⟨1, 0x01, 0, 1, []⟩, ⟨1, 0x01, 1, 1, []⟩] ∧
      ∀ address : UInt16, address = 0 ∨ address = 1 →
        ∃ m, (⟨1, 0x01, address, 1, []⟩ : Request).toPdu = .ok m ∧ Pdu.readRequest 0x01 address 1 = .ok m := by
  obtain ⟨asked, -, sent, built, whole⟩ := requests_of_run oneByOne nofun DirectLink.scene twoCoils
  have queries : oneByOne.queries = [.read 1 .coils 0 1, .read 1 .coils 1 1] := by decide +kernel
  have all : asked = oneByOne.queries := by
    cases outcome : (twoCoils.perform (oneByOne.run DirectLink.scene)).1 with
    | ok x => exact whole x outcome
    | error e =>
      have ok : (twoCoils.perform (oneByOne.run DirectLink.scene)).1.isOk = true := by decide +kernel
      rw [outcome] at ok
      nomatch ok
  rw [all, queries] at sent built
  refine ⟨nofun, sent, ?_⟩
  rintro address (rfl | rfl)
  · exact built (.read 1 .coils 0 1) List.mem_cons_self
  · exact built (.read 1 .coils 1 1) (List.mem_cons_of_mem _ List.mem_cons_self)

end Operation

end Modbus
