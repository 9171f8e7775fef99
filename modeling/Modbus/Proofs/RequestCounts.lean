import Modbus.Proofs.BatchFault
import Modbus.Proofs.ChunkTiling
import Modbus.Proofs.Queries
import Modbus.Proofs.WriteCeiling

/-! How many requests an operation takes. The count that the limits of a device announce is that of the spans of a plan
and that of the pieces of a row, so a read or a write that succeeds has taken exactly so many requests. -/
namespace Modbus

namespace Limits

variable {total ceiling : UInt16}

theorem toNat_requestCount (positive : 1 ≤ ceiling) :
    (requestCount total ceiling).toNat = total.toNat ⌈/⌉ ceiling.toNat := by
  have some : 0 < ceiling.toNat := UInt16.le_iff_toNat_le.mp positive
  have nonzero : ceiling ≠ 0 := by
    rintro rfl
    exact Nat.lt_irrefl 0 some
  have few : total.toNat ⌈/⌉ ceiling.toNat ≤ total.toNat :=
    (ceilDiv_le_iff_le_mul some).mpr (Nat.le_mul_of_pos_left _ some)
  have small := total.toNat_lt
  rw [requestCount, if_neg nonzero, ← Nat.ceilDiv_eq_add_pred_div]
  exact Word.toNat_ofNat (by omega)

end Limits

namespace Assignment

/-- The piece of a row at an index. -/
def piece (ceiling address : Nat) (words : List UInt16) (i : Nat) : Assignment :=
  .registers (.ofNat (address + i * ceiling)) ((words.drop (i * ceiling)).take ceiling)

variable {ceiling : Nat}

theorem getElem?_pieces (positive : 0 < ceiling) (address : Nat) (words : List UInt16) (i : Nat) :
    (pieces ceiling address words)[i]? =
      if i * ceiling < words.length then some (piece ceiling address words i) else none := by
  induction i generalizing address words with
  | zero =>
    rw [pieces, Nat.zero_mul]
    by_cases more : 0 < words.length
    · rw [if_pos ⟨positive, more⟩, if_pos more, piece, Nat.zero_mul]
      rfl
    · rw [if_neg fun both => more both.2, if_neg more]
      rfl
  | succ i ih =>
    rw [pieces, Nat.succ_mul]
    by_cases more : 0 < words.length
    · have next : piece ceiling (address + ceiling) (words.drop ceiling) i = piece ceiling address words (i + 1) := by
        rw [piece, piece, List.drop_drop, Nat.succ_mul, Nat.add_comm (i * ceiling), Nat.add_assoc]
      rw [if_pos ⟨positive, more⟩, List.getElem?_cons_succ, ih, List.length_drop, next]
      exact if_congr (by omega) rfl rfl
    · rw [if_neg fun both => more both.2, if_neg (by omega)]
      rfl

theorem length_pieces (positive : 0 < ceiling) (address : Nat) (words : List UInt16) :
    (pieces ceiling address words).length = words.length ⌈/⌉ ceiling :=
  Chunk.length_eq_ceilDiv positive (getElem?_pieces positive address words)

theorem quantity_piece (slave : UInt8) (most : ceiling ≤ 123) (address : Nat) (words : List UInt16) (i : Nat) :
    ((piece ceiling address words i).request slave).quantity.toNat = min ceiling (words.length - i * ceiling) := by
  have size : ((words.drop (i * ceiling)).take ceiling).length = min ceiling (words.length - i * ceiling) := by
    rw [List.length_take, List.length_drop]
  exact (Word.toNat_ofNat (by omega)).trans size

end Assignment

namespace Batch

/-- Requests of one slave that write registers in a row from `start` on, each of them full but the last. -/
structure IsRow (slave : UInt8) (ceiling start size : Nat) (requests : List Request) : Prop where
  multiple : ∀ r ∈ requests, r.slave = slave ∧ r.function = 0x10
  address : ∀ (i : Nat) (inside : i < requests.length), requests[i].address.toNat = start + i * ceiling
  full : ∀ (i : Nat) (inside : i < requests.length), i + 1 < requests.length → requests[i].quantity.toNat = ceiling
  last : ∀ (i : Nat) (inside : i < requests.length), i + 1 = requests.length →
    0 < requests[i].quantity.toNat ∧ requests[i].quantity.toNat ≤ ceiling ∧
      i * ceiling + requests[i].quantity.toNat = size

theorem isRow_pieces (slave : UInt8) {ceiling start : Nat} {words : List UInt16} (positive : 0 < ceiling)
    (most : ceiling ≤ 123) (range : start + words.length ≤ 0x10000) :
    IsRow slave ceiling start words.length
      ((Assignment.pieces ceiling start words).map fun s => s.request slave) := by
  generalize given : ((Assignment.pieces ceiling start words).map fun s => s.request slave) = requests
  have reached (i : Nat) : i < requests.length ↔ i * ceiling < words.length := by
    rw [← given, List.length_map, Assignment.length_pieces positive, Chunk.lt_ceilDiv_iff positive]
  have element (i : Nat) (inside : i < requests.length) :
      requests[i] = (Assignment.piece ceiling start words i).request slave := by
    rw [List.getElem_eq_iff, ← given, List.getElem?_map, Assignment.getElem?_pieces positive,
      if_pos ((reached i).mp inside)]
    rfl
  constructor
  · intro r member
    obtain ⟨i, inside, rfl⟩ := List.getElem_of_mem member
    rw [element i inside]
    exact ⟨rfl, rfl⟩
  · intro i inside
    have := (reached i).mp inside
    rw [element i inside]
    exact Word.toNat_ofNat (by omega)
  · intro i inside more
    rw [reached, Nat.succ_mul] at more
    rw [element i inside, Assignment.quantity_piece slave most]
    omega
  · intro i inside ends
    have last : ¬ i + 1 < requests.length := Nat.not_lt_of_le (Nat.le_of_eq ends.symm)
    rw [reached, Nat.succ_mul] at last
    rw [reached] at inside
    rw [element i, Assignment.quantity_piece slave most]
    omega

/-- A group of registers that are written together, alone in its batch. -/
theorem plan_of_coalescable (limits : Limits) {key : Key} {commands : Array Command}
    (register : key.function = 0x06 ∨ key.function = 0x10) (together : Client.coalescable commands.toList = true) :
    Batch.plan { groups := [(key, commands)] } limits = Plan.coalesced limits key.slave commands.toList := by
  have whole (p : Plan) : p.append {} = p := by
    obtain ⟨writes, failure⟩ := p
    cases failure with
    | none => exact congrArg (Plan.mk · none) (List.append_nil writes)
    | some e => rfl
  rw [plan, Plan.ofGroups, Plan.ofGroups, whole, Plan.group_eq_registers limits register, Plan.registers,
    if_pos together]

end Batch

namespace Client
open Batch

variable {σ : Type} [Link σ]

theorem length_plan (start quantity : UInt16) {ceiling : UInt16} (positive : 1 ≤ ceiling) :
    ∃ spans, Chunk.plan start quantity ceiling = .ok spans ∧
      spans.length = (Limits.requestCount quantity ceiling).toNat := by
  have some : 0 < ceiling.toNat := UInt16.le_iff_toNat_le.mp positive
  have nonzero : ceiling ≠ 0 := by
    rintro rfl
    exact Nat.lt_irrefl 0 some
  refine ⟨_, Chunk.plan_eq_ok nonzero, ?_⟩
  rw [Chunk.length_pieces some (Nat.le_of_lt_succ start.toNat_lt), Limits.toNat_requestCount positive]

/-- A chunked read that succeeds has sent a request for each span of its plan. -/
theorem sent_readChunked (bank : Bank) (slave : UInt8) (start quantity : UInt16) {limits : Limits}
    (positive : 1 ≤ bank.ceiling limits) (stopped : σ → Bool) (c : Client σ) {values : List bank.Cell}
    (ok : (c.perform (bank.readChunked slave start quantity limits stopped)).1 = .ok values) :
    ∃ requests, (c.perform (bank.readChunked slave start quantity limits stopped)).2.sent = c.sent ++ requests ∧
      requests.length = (Limits.requestCount quantity (bank.ceiling limits)).toNat := by
  obtain ⟨spans, planned, size⟩ := length_plan start quantity positive
  obtain ⟨asked, -, sent, -, whole⟩ :=
    Operation.asks_readChunked bank slave start quantity limits (fun _ => false) stopped c
  have queries := whole values ok
  rw [Operation.queries, planned] at queries
  refine ⟨_, sent, ?_⟩
  rw [queries, List.length_map, List.length_map, size]

/-- A group of registers that are written together, and that is all of a batch that succeeds, was written in a row. -/
theorem sent_writeBatch_row {limits : Limits} (positive : 1 ≤ limits.maxWriteRegisters)
    (most : limits.maxWriteRegisters ≤ 123) {key : Key} {commands : Array Command}
    (register : key.function = 0x06 ∨ key.function = 0x10) (together : coalescable commands.toList = true)
    (c : Client σ) (ok : (c.perform (writeBatch { groups := [(key, commands)] } limits)).1 = .ok ()) :
    ∃ requests, (c.perform (writeBatch { groups := [(key, commands)] } limits)).2.sent = c.sent ++ requests ∧
      requests.length = total commands.toList ⌈/⌉ limits.maxWriteRegisters.toNat ∧
      IsRow key.slave limits.maxWriteRegisters.toNat (lowest commands.toList) (total commands.toList) requests := by
  have some : 0 < limits.maxWriteRegisters.toNat := UInt16.le_iff_toNat_le.mp positive
  have most : limits.maxWriteRegisters.toNat ≤ 123 := UInt16.le_iff_toNat_le.mp most
  have ceiling : limits.writeCeiling = limits.maxWriteRegisters.toNat := Nat.min_eq_left most
  have planned := plan_of_coalescable limits register together
  obtain ⟨size, coalesced⟩ := Plan.coalesced_eq limits key.slave together
  obtain ⟨after, succeeds⟩ := perform_writeBatch { groups := [(key, commands)] } limits c
  obtain ⟨unfailing, issued, written⟩ := succeeds.mp ok
  have admissible : ∀ w ∈ (Batch.plan { groups := [(key, commands)] } limits).writes, w.2.Admissible :=
    fun _ => Batch.admissible_writes
  obtain ⟨k, -, sent, whole⟩ := exists_sent_writeInTurn limits.delayMs _ admissible false c
  rw [whole issued written, List.take_length] at sent
  rw [after, sent, planned, coalesced]
  rw [planned, coalesced] at unfailing
  cases fault : rowFault? limits commands.toList with
  | some e =>
    rw [fault] at unfailing
    nomatch unfailing
  | none =>
    have range : lowest commands.toList + (Batch.registers (byAddress commands.toList)).length ≤ 0x10000 := by
      rw [size]
      exact (rowFault?_eq_none_iff.mp fault).1
    have row := isRow_pieces key.slave some most range
    have count := Assignment.length_pieces some (lowest commands.toList) (Batch.registers (byAddress commands.toList))
    rw [size] at row count
    refine ⟨_, rfl, ?_⟩
    rw [Option.elim_none, Plan.ofWrites, List.map_map, ceiling]
    exact ⟨(List.length_map _).trans count, row⟩

/-- The counts that the limits of a device announce are those of the requests that are sent. A chunked register read
that succeeds has sent as many as its plan has spans. A group of registers that are written together, alone in its
batch, is written in as many multiple writes, which begin at the lowest address and are full but the last. The requests
noted as sent are those that the link was given, by `Operation.follows_runAll`. -/
theorem sent_requestCount (limits : Limits) (c : Client σ) :
    (1 ≤ limits.maxReadRegisters → ∀ start quantity : UInt16,
      (∃ spans, Chunk.plan start quantity limits.maxReadRegisters = .ok spans ∧
        spans.length = (limits.readRequestCount quantity).toNat) ∧
      ∀ bank : Bank, bank = .holdingRegisters ∨ bank = .inputRegisters → ∀ (slave : UInt8) (stopped : σ → Bool),
        let done := c.perform (bank.readChunked slave start quantity limits stopped)
        ∀ values, done.1 = .ok values →
          ∃ requests, done.2.sent = c.sent ++ requests ∧
            requests.length = (limits.readRequestCount quantity).toNat) ∧
    (1 ≤ limits.maxWriteRegisters → limits.maxWriteRegisters ≤ 123 →
      ∀ (key : Key) (commands : Array Command) (n : UInt16), key.function = 0x06 ∨ key.function = 0x10 →
        coalescable commands.toList = true → total commands.toList = n.toNat →
        let done := c.perform (writeBatch { groups := [(key, commands)] } limits)
        done.1 = .ok () →
          ∃ requests, done.2.sent = c.sent ++ requests ∧
            requests.length = (limits.writeRequestCount n).toNat ∧
            IsRow key.slave limits.maxWriteRegisters.toNat (lowest commands.toList) n.toNat requests) := by
  constructor
  · intro positive start quantity
    refine ⟨length_plan start quantity positive, ?_⟩
    rintro bank (rfl | rfl) slave stopped done values ok
    · exact sent_readChunked .holdingRegisters slave start quantity positive stopped c ok
    · exact sent_readChunked .inputRegisters slave start quantity positive stopped c ok
  · intro positive most key commands n register together size done ok
    have sent := sent_writeBatch_row positive most register together c ok
    rw [size, ← Limits.toNat_requestCount positive] at sent
    exact sent

/-- Where every request is confirmed, a batch without a fault succeeds. -/
theorem writeBatch_confirming {batch : Batch} {limits : Limits} (sound : batch.fault? limits = none)
    (c : Client Confirming) : (c.perform (writeBatch batch limits)).1 = .ok () := by
  have written := perform_writeInTurn_confirming limits.delayMs (batch.plan limits).writes
    (fun _ => Batch.admissible_writes) false c
  exact (perform_writeBatch batch limits c).2.mpr ⟨(failure_plan batch limits).trans sound, written⟩

/-- A client of a device with three registers. -/
def threeCells : Client DirectLink :=
  { link := { device := { holding := ((Device.Table.empty.set 0 0).set 1 0).set 2 0 } } }

/-- Three registers by two commands. -/
def threeRegisters : Array Command := #[
  { slave := 1, function := 0x06, address := 0, value := .u32 0x00010002, tag := "uint32" },
  { slave := 1, function := 0x06, address := 2, value := .u16 7, tag := "uint16" }]

/-- A device that takes two registers in a request is sent two requests for three registers, read or written. -/
theorem sent_requestCount_threeRegisters :
    let limits : Limits := { maxReadRegisters := 2, maxWriteRegisters := 2 }
    let read := threeCells.perform (Bank.readChunked .holdingRegisters 1 0 3 limits fun _ => false)
    let written := ({ link := {} } : Client Confirming).perform
      (writeBatch { groups := [(⟨1, 0x06⟩, threeRegisters)] } limits)
    (∃ values, read.1 = .ok values) ∧ read.2.sent.length = 2 ∧ written.1 = .ok () ∧
      ∃ first second, written.2.sent = [first, second] ∧ first.function = 0x10 ∧ second.function = 0x10 ∧
        first.address.toNat = 0 ∧ first.quantity.toNat = 2 ∧
        second.address.toNat = 2 ∧ 2 + second.quantity.toNat = 3 := by
  intro limits read written
  have readOk : ∃ values, read.1 = .ok values := Error.exists_ok_of_not_raised (by decide +kernel)
  have sorted : byAddress threeRegisters.toList = threeRegisters.toList :=
    List.mergeSort_of_pairwise (by decide +kernel)
  have together : coalescable threeRegisters.toList = true := by
    rw [coalescable, areConsecutive, sorted]
    decide +kernel
  have sound : Batch.fault? { groups := [(⟨1, 0x06⟩, threeRegisters)] } limits = none := by
    have row : groupFault? limits ⟨1, 0x06⟩ threeRegisters.toList = none := (if_pos together).trans (by decide +kernel)
    rw [fault?, List.findSome?_cons, row]
    rfl
  have writtenOk : written.1 = .ok () := writeBatch_confirming sound _
  have lowest : lowest threeRegisters.toList = 0 := by decide +kernel
  have two : (Limits.requestCount 3 2).toNat = 2 := by decide
  refine ⟨readOk, ?_, writtenOk, ?_⟩
  · obtain ⟨values, ok⟩ := readOk
    obtain ⟨requests, sent, count⟩ :=
      ((sent_requestCount limits threeCells).1 (by decide) 0 3).2 .holdingRegisters (.inl rfl) 1 _ values ok
    exact (congrArg List.length sent).trans (count.trans two)
  · obtain ⟨requests, sent, count, row⟩ := (sent_requestCount limits ({ link := {} } : Client Confirming)).2
      (by decide) (by decide) ⟨1, 0x06⟩ threeRegisters 3 (.inl rfl) together (by decide +kernel) writtenOk
    obtain ⟨first, second, rfl⟩ := List.length_eq_two.mp (count.trans two)
    rw [lowest] at row
    obtain ⟨multiple, address, full, last⟩ := row
    have here : first ∈ [first, second] := List.mem_cons_self
    have next : second ∈ [first, second] := List.mem_cons_of_mem _ List.mem_cons_self
    exact ⟨first, second, sent, (multiple first here).2, (multiple second next).2, address 0 Nat.two_pos,
      full 0 Nat.two_pos Nat.one_lt_two, address 1 Nat.one_lt_two, (last 1 Nat.one_lt_two rfl).2.2⟩

end Client

end Modbus
