import Modbus.Proofs.Acceptance
import Modbus.Proofs.ChunkedRead

/-! Reads over any link, whatever it answers. A read that succeeds has as many values as were asked for, and no request
goes beyond what the protocol allows in one; a plain read takes its values from a response that holds them all. -/
namespace Modbus.Bank

variable {σ : Type}

/-- A read by which a client came to `done`: it has sent allowed requests only, and if it succeeded it has `count`
values. -/
structure Measured (bank : Bank) (c : Client σ) (count : Nat) (done : Except Error (List bank.Cell) × Client σ) :
    Prop where
  sent : ∃ requests, done.2.sent = c.sent ++ requests ∧
    ∀ r ∈ requests, r.quantity ≠ 0 ∧ r.quantity ≤ bank.maxQuantity
  length : ∀ values, done.1 = .ok values → values.length = count

theorem measured_of_error (bank : Bank) {c c' : Client σ} (silent : c'.sent = c.sent) (count : Nat) (e : Error) :
    bank.Measured c count (.error e, c') where
  sent := ⟨[], silent.trans (List.append_nil _).symm, fun _ member => absurd member List.not_mem_nil⟩
  length := by
    intro values ok
    cases ok

variable [Link σ]

/-- A plain read succeeds with the values of a response that has the function code of the request and enough data. -/
theorem perform_read_eq_ok_iff_response (bank : Bank) (c : Client σ) (slave : UInt8) (address quantity : UInt16)
    {values : List bank.Cell} :
    (c.perform (bank.read slave address quantity)).1 = .ok values ↔
      (quantity ≠ 0 ∧ quantity ≤ bank.maxQuantity) ∧
        ∃ response count data, (Link.send c.link (bank.request slave address quantity)).1 = .ok response ∧
          response.bytes = bank.code.toByte :: count :: data ∧ bank.Suffices quantity.toNat count data.length ∧
          values.length = quantity.toNat ∧ ∀ i < quantity.toNat, values[i]? = bank.cellAt? (data[·]?) i := by
  by_cases range : quantity ≠ 0 ∧ quantity ≤ bank.maxQuantity
  · rw [perform_read_eq_ask bank c slave address range, Client.perform_ask_eq_ok_iff, and_iff_right range]
    refine exists_congr fun response => ?_
    rw [parse_eq_ok_iff, and_iff_right bank.code.isException_toByte]
    simp only [exists_and_left]
  · rw [perform_read_out_of_range bank c slave address (Request.outside_of_not_inside range)]
    exact ⟨nofun, fun accepted => absurd accepted.1 range⟩

theorem measured_read (bank : Bank) (c : Client σ) (slave : UInt8) (address quantity : UInt16) :
    bank.Measured c quantity.toNat (c.perform (bank.read slave address quantity)) := by
  by_cases range : quantity ≠ 0 ∧ quantity ≤ bank.maxQuantity
  · constructor
    · rw [perform_read_eq_ask bank c slave address range, (Client.perform_ask ..).2.2]
      exact ⟨_, rfl, List.forall_mem_singleton.mpr range⟩
    · intro values ok
      obtain ⟨-, _, _, _, -, -, -, length, -⟩ := (bank.perform_read_eq_ok_iff_response c slave address quantity).mp ok
      exact length
  · rw [perform_read_out_of_range bank c slave address (Request.outside_of_not_inside range)]
    exact bank.measured_of_error rfl _ _

@[simp] theorem sent_rested (c : Client σ) (delay : Nat) (first : Bool) : (rested c delay first).sent = c.sent := by
  unfold rested
  split
  · rfl
  · exact c.sent_pause delay

theorem measured_readSpans (bank : Bank) (slave : UInt8) (stopped : σ → Bool) (delay : Nat) (spans : List Chunk.Span)
    (chunks : List (List bank.Cell)) (c : Client σ) :
    bank.Measured c (chunks.flatten.length + (spans.map (·.count.toNat)).sum)
      (Chunk.readSpans (bank.reader slave stopped) delay spans chunks c) := by
  induction spans generalizing c chunks with
  | nil =>
    refine ⟨⟨[], (List.append_nil _).symm, fun _ member => absurd member List.not_mem_nil⟩, ?_⟩
    intro values ok
    obtain rfl := Except.ok.inj ok
    simp
  | cons span spans ih =>
    have first := bank.measured_read (rested c delay chunks.isEmpty) slave span.start span.count
    obtain ⟨⟨requests, sent, allowed⟩, length⟩ := first
    rw [sent_rested] at sent
    rw [readSpans_cons]
    split
    · exact bank.measured_of_error (sent_rested c delay chunks.isEmpty) _ _
    · rcases performed : (rested c delay chunks.isEmpty).perform (bank.read slave span.start span.count)
        with ⟨e | values, c₁⟩
      · rw [performed] at sent
        refine ⟨⟨requests, sent, allowed⟩, ?_⟩
        intro values ok
        cases ok
      · rw [performed] at sent length
        obtain ⟨⟨later, sent', allowed'⟩, length'⟩ := ih (values :: chunks) c₁
        refine ⟨⟨requests ++ later, ?_, ?_⟩, ?_⟩
        · rw [← List.append_assoc, ← sent]
          exact sent'
        · exact List.forall_mem_append.mpr ⟨allowed, allowed'⟩
        · intro all ok
          rw [length' all ok, List.flatten_cons, List.length_append, length values rfl, List.map_cons, List.sum_cons]
          omega

theorem measured_readChunked (bank : Bank) (c : Client σ) (slave : UInt8) (address quantity : UInt16) (limits : Limits)
    (stopped : σ → Bool) :
    bank.Measured c quantity.toNat (c.perform (bank.readChunked slave address quantity limits stopped)) := by
  rw [perform_readChunked, Chunk.read]
  by_cases none : bank.ceiling limits = 0
  · rw [Chunk.plan, if_pos none]
    exact bank.measured_of_error rfl _ _
  · have positive : 0 < (bank.ceiling limits).toNat := Nat.pos_of_ne_zero fun zero => none (UInt16.toNat_inj.mp zero)
    have total : ((Chunk.pieces (bank.ceiling limits).toNat address.toNat quantity.toNat).map (·.count.toNat)).sum =
        quantity.toNat := Chunk.sum_count_pieces positive (Nat.le_of_lt_succ quantity.toNat_lt)
    have measured := bank.measured_readSpans slave stopped limits.delayMs
      (Chunk.pieces (bank.ceiling limits).toNat address.toNat quantity.toNat) [] c
    rw [total, List.flatten_nil, List.length_nil, Nat.zero_add] at measured
    rw [Chunk.plan_eq_ok none]
    exact measured

/-- Over any link, plain and chunked reads send allowed requests only and give as many values as were asked for, if they
give any. A plain read gives values exactly if the response has the function code of the request, a byte count and data
that suffices, and they are the first ones of that data; no byte is looked up that the response does not have. -/
theorem reads_any_link (bank : Bank) (c : Client σ) (slave : UInt8) (address quantity : UInt16) (limits : Limits)
    (stopped : σ → Bool) :
    let plain := c.perform (bank.read slave address quantity)
    bank.Measured c quantity.toNat plain ∧
      bank.Measured c quantity.toNat (c.perform (bank.readChunked slave address quantity limits stopped)) ∧
      (∀ values, plain.1 = .ok values ↔ (quantity ≠ 0 ∧ quantity ≤ bank.maxQuantity) ∧
        ∃ response count data, (Link.send c.link (bank.request slave address quantity)).1 = .ok response ∧
          response.bytes = bank.code.toByte :: count :: data ∧ bank.Suffices quantity.toNat count data.length ∧
          values.length = quantity.toNat ∧ ∀ i < quantity.toNat, values[i]? = bank.cellAt? (data[·]?) i) ∧
      ∀ response, bank.indexed? response bank.code.toByte quantity =
        some (bank.parse response bank.code.toByte quantity) := by
  intro plain
  refine ⟨bank.measured_read c slave address quantity,
    bank.measured_readChunked c slave address quantity limits stopped, ?_, ?_⟩
  · intro values
    exact bank.perform_read_eq_ok_iff_response c slave address quantity
  · intro response
    exact bank.indexed?_eq response bank.code.toByte quantity

end Modbus.Bank
