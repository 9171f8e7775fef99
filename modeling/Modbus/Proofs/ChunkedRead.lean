import Modbus.Proofs.ChunkPlan
import Modbus.Proofs.Direct

/-! Chunked reads of a device. A chunk after another looks up the spans of the plan, up to the first one that is
not mapped. Inside the address space this is one look-up of the whole range; past its end it is not always a
failure. -/
namespace Modbus.Bank

variable {σ : Type} [Link σ]

def readChunked : (bank : Bank) → UInt8 → UInt16 → UInt16 → Limits → (σ → Bool) → Client.Action σ (List bank.Cell)
  | coils => Client.readCoilsChunked
  | discreteInputs => Client.readDiscreteInputsChunked
  | holdingRegisters => Client.readHoldingRegistersChunked
  | inputRegisters => Client.readInputRegistersChunked

def ceiling (limits : Limits) : Bank → UInt16
  | coils | discreteInputs => limits.maxReadCoils
  | holdingRegisters | inputRegisters => limits.maxReadRegisters

/-- What a chunked read acts through: a plain read of each span. -/
def reader (bank : Bank) (slave : UInt8) (stopped : σ → Bool) : Chunk.Reader (Client σ) bank.Cell where
  fetch span c := c.perform (bank.read slave span.start span.count)
  pause := Client.pause
  stopped c := stopped c.link

theorem perform_readChunked (bank : Bank) (c : Client σ) (slave : UInt8) (address quantity : UInt16)
    (limits : Limits) (stopped : σ → Bool) :
    c.perform (bank.readChunked slave address quantity limits stopped) =
      Chunk.read (bank.reader slave stopped) limits.delayMs address quantity (bank.ceiling limits) c := by
  cases bank <;> rfl

def ask (bank : Bank) (slave : UInt8) (span : Chunk.Span) : Request := bank.request slave span.start span.count

/-- The client when it asks for the next chunk: after a pause, unless the chunk is the first one. -/
def rested (c : Client σ) (delay : Nat) (first : Bool) : Client σ :=
  if first ∨ delay = 0 then c else c.pause delay

theorem readSpans_cons (bank : Bank) (slave : UInt8) (stopped : σ → Bool) (delay : Nat) (span : Chunk.Span)
    (spans : List Chunk.Span) (chunks : List (List bank.Cell)) (c : Client σ) :
    Chunk.readSpans (bank.reader slave stopped) delay (span :: spans) chunks c =
      if stopped (rested c delay chunks.isEmpty).link then
        (.error (.cancelled span.start), rested c delay chunks.isEmpty)
      else
        match (rested c delay chunks.isEmpty).perform (bank.read slave span.start span.count) with
        | (.error e, c) => (.error e, c)
        | (.ok values, c) => Chunk.readSpans (bank.reader slave stopped) delay spans (values :: chunks) c := by
  have same : (if chunks.isEmpty then c else (bank.reader slave stopped).rest delay c) =
      rested c delay chunks.isEmpty := by
    unfold rested Chunk.Reader.rest
    cases chunks.isEmpty with
    | true => rfl
    | false => simp [reader]
  rw [Chunk.readSpans, same]
  refine ite_congr rfl (fun _ => rfl) ?_
  intro _
  have fetched : (bank.reader slave stopped).fetch span (rested c delay chunks.isEmpty) =
      (rested c delay chunks.isEmpty).perform (bank.read slave span.start span.count) := rfl
  rw [fetched]
  rcases (rested c delay chunks.isEmpty).perform (bank.read slave span.start span.count) with ⟨_ | _, _⟩ <;> rfl

/-! Over a device. -/

variable {c : Client DirectLink} {delay : Nat} {chunks : List (List α)}

theorem link_rested (c : Client DirectLink) (delay : Nat) (first : Bool) :
    ∃ now, (rested c delay first).link = { c.link with now } := by
  unfold rested Client.pause
  split
  · exact ⟨_, rfl⟩
  · cases c.realPauses with
    | true => exact ⟨c.link.now + delay, rfl⟩
    | false => exact ⟨_, rfl⟩

theorem reaches_rested (ready : c.link.Ready) (delay : Nat) (first : Bool) :
    Client.Reaches c (rested c delay first) c.link.device.memory [] := by
  unfold rested
  split
  · exact .refl ready
  · exact Client.reaches_pause ready delay

theorem perform_read_rested (bank : Bank) (ready : c.link.Ready) (slave : UInt8) (delay : Nat) (first : Bool)
    {span : Chunk.Span} (range : span.count ≠ 0 ∧ span.count ≤ bank.maxQuantity) :
    ∃ c', (rested c delay first).perform (bank.read slave span.start span.count) =
        (bank.outcome ((c.link.device.memory.table bank).span? span.start.toNat span.count.toNat), c') ∧
      Client.Reaches c c' c.link.device.memory [bank.ask slave span] := by
  have rest := reaches_rested ready delay first
  obtain ⟨outcome, reached⟩ := bank.perform_read rest.ready slave span.start range
  rw [rest.memory] at outcome reached
  exact ⟨_, Prod.ext outcome rfl, rest.trans reached⟩

theorem readSpans_mapped (bank : Bank) (ready : c.link.Ready) (slave : UInt8) (delay : Nat)
    {spans : List Chunk.Span} (allowed : ∀ span ∈ spans, span.count ≠ 0 ∧ span.count ≤ bank.maxQuantity)
    {values : List bank.Cell} (found : Chunk.lookUp (c.link.device.memory.table bank) spans = some values)
    (chunks : List (List bank.Cell)) :
    ∃ c', Chunk.readSpans (bank.reader slave fun _ => false) delay spans chunks c =
        (.ok (chunks.reverse.flatten ++ values), c') ∧
      Client.Reaches c c' c.link.device.memory (spans.map (bank.ask slave)) := by
  induction spans generalizing c values chunks with
  | nil =>
    obtain rfl := Option.some.inj found
    exact ⟨c, by rw [Chunk.readSpans, List.append_nil], .refl ready⟩
  | cons span spans ih =>
    simp only [Chunk.lookUp, Option.bind_eq_bind, Option.bind_eq_some_iff, Option.pure_def,
      Option.some.injEq] at found
    obtain ⟨first, here, rest, later, rfl⟩ := found
    obtain ⟨range, allowed⟩ := List.forall_mem_cons.mp allowed
    obtain ⟨c₁, fetched, reached₁⟩ := bank.perform_read_rested ready slave delay chunks.isEmpty range
    rw [← reached₁.memory] at later
    obtain ⟨c₂, done, reached₂⟩ := ih reached₁.ready allowed later (first :: chunks)
    refine ⟨c₂, ?_, ?_⟩
    · rw [readSpans_cons, fetched, here]
      simpa [outcome] using done
    · have whole := reached₁.trans reached₂
      rwa [reached₁.memory] at whole

/-- The first span that is not mapped ends the read. -/
theorem readSpans_unmapped (bank : Bank) (ready : c.link.Ready) (slave : UInt8) (delay : Nat)
    {spans : List Chunk.Span} (allowed : ∀ span ∈ spans, span.count ≠ 0 ∧ span.count ≤ bank.maxQuantity)
    (missing : Chunk.lookUp (c.link.device.memory.table bank) spans = none) (chunks : List (List bank.Cell)) :
    ∃ c' before first after,
      Chunk.readSpans (bank.reader slave fun _ => false) delay spans chunks c =
        (.error (.exception bank.code.toByte ExceptionCode.illegalDataAddress.toByte), c') ∧
      spans = before ++ first :: after ∧
      (∀ span ∈ before, (c.link.device.memory.table bank).Maps span.start.toNat span.count.toNat) ∧
      ¬ (c.link.device.memory.table bank).Maps first.start.toNat first.count.toNat ∧
      Client.Reaches c c' c.link.device.memory ((before ++ [first]).map (bank.ask slave)) := by
  induction spans generalizing c chunks with
  | nil => nomatch missing
  | cons span spans ih =>
    obtain ⟨range, allowed⟩ := List.forall_mem_cons.mp allowed
    obtain ⟨c₁, fetched, reached₁⟩ := bank.perform_read_rested ready slave delay chunks.isEmpty range
    cases here : (c.link.device.memory.table bank).span? span.start.toNat span.count.toNat with
    | none =>
      refine ⟨c₁, [], span, spans, ?_, rfl, by simp, (Device.Table.span?_eq_none_iff _ _ _).mp here, reached₁⟩
      rw [readSpans_cons, fetched, here]
      rfl
    | some first =>
      have later : Chunk.lookUp (c₁.link.device.memory.table bank) spans = none := by
        rw [reached₁.memory]
        cases later : Chunk.lookUp (c.link.device.memory.table bank) spans with
        | none => rfl
        | some rest => simp [Chunk.lookUp, here, later] at missing
      obtain ⟨c₂, before, bad, after, done, parts, mapped, unmapped, reached₂⟩ :=
        ih reached₁.ready allowed later (first :: chunks)
      rw [reached₁.memory] at mapped unmapped reached₂
      refine ⟨c₂, span :: before, bad, after, ?_, by rw [parts]; rfl, ?_, unmapped, reached₁.trans reached₂⟩
      · rw [readSpans_cons, fetched, here]
        simpa [outcome] using done
      · exact List.forall_mem_cons.mpr ⟨(Device.Table.exists_span?_iff_maps _ _ _).mp ⟨first, here⟩, mapped⟩

/-- Whatever the link and whoever stops it, a chunked read that succeeds has found all its spans. -/
theorem readSpans_eq_ok (bank : Bank) {slave : UInt8} {stopped : DirectLink → Bool} {spans : List Chunk.Span}
    {chunks : List (List bank.Cell)} {values : List bank.Cell}
    (ok : (Chunk.readSpans (bank.reader slave stopped) delay spans chunks c).1 = .ok values) :
    (spans ≠ [] → c.link.Ready) ∧ (∀ span ∈ spans, span.count ≠ 0 ∧ span.count ≤ bank.maxQuantity) ∧
      ∃ rest, Chunk.lookUp (c.link.device.memory.table bank) spans = some rest ∧
        values = chunks.reverse.flatten ++ rest := by
  induction spans generalizing c chunks with
  | nil =>
    rw [Chunk.readSpans] at ok
    cases ok
    exact ⟨fun some => absurd rfl some, by simp, [], rfl, (List.append_nil _).symm⟩
  | cons span spans ih =>
    rw [readSpans_cons] at ok
    split at ok
    · nomatch ok
    · rcases fetched : (rested c delay chunks.isEmpty).perform (bank.read slave span.start span.count)
        with ⟨_ | first, c₁⟩
      · rw [fetched] at ok; nomatch ok
      · rw [fetched] at ok
        obtain ⟨ready, range, here⟩ := bank.perform_read_eq_ok_iff.mp (congrArg Prod.fst fetched)
        have reached := (bank.perform_read ready slave span.start range).2
        rw [fetched] at reached
        obtain ⟨now, link⟩ := link_rested c delay chunks.isEmpty
        have memory : (rested c delay chunks.isEmpty).link.device = c.link.device := by rw [link]
        rw [memory] at here reached
        obtain ⟨-, allowed, rest, later, rfl⟩ := ih ok
        rw [reached.memory] at later
        refine ⟨?_, List.forall_mem_cons.mpr ⟨range, allowed⟩, first ++ rest, ?_, by simp⟩
        · intro _
          rw [link] at ready
          exact ⟨ready.connected, ready.idle⟩
        · simp [Chunk.lookUp, here, later]

/-! The whole read. -/

variable {slave : UInt8} {address quantity : UInt16} {limits : Limits}

theorem perform_readChunked_eq (bank : Bank) (c : Client DirectLink) (stopped : DirectLink → Bool)
    (positive : bank.ceiling limits ≠ 0) :
    c.perform (bank.readChunked slave address quantity limits stopped) =
      Chunk.readSpans (bank.reader slave stopped) limits.delayMs
        (Chunk.pieces (bank.ceiling limits).toNat address.toNat quantity.toNat) [] c := by
  rw [perform_readChunked, Chunk.read, Chunk.plan_eq_ok positive]

theorem allowed_pieces (bank : Bank) (ceiling address quantity : UInt16) (most : ceiling ≤ bank.maxQuantity) :
    ∀ span ∈ Chunk.pieces ceiling.toNat address.toNat quantity.toNat,
      span.count ≠ 0 ∧ span.count ≤ bank.maxQuantity := by
  intro span member
  obtain ⟨some, small⟩ := Chunk.count_of_mem_pieces (Nat.le_of_lt_succ quantity.toNat_lt) member
  refine ⟨?_, UInt16.le_trans (UInt16.le_iff_toNat_le.mpr small) most⟩
  intro none
  rw [none] at some
  exact Nat.lt_irrefl 0 some

/-- Inside the address space a chunked read under an allowed ceiling gives the cells of a mapped range, whatever
the ceiling. If a cell is missing, the chunk that first asks for one is the last one sent. -/
theorem readChunked_inside (bank : Bank) {c : Client DirectLink} (ready : c.link.Ready) (slave : UInt8)
    (address quantity : UInt16) (inside : address.toNat + quantity.toNat ≤ 0x10000) (limits : Limits)
    (range : bank.ceiling limits ≠ 0 ∧ bank.ceiling limits ≤ bank.maxQuantity) :
    let t := c.link.device.memory.table bank
    let done := c.perform (bank.readChunked slave address quantity limits fun _ => false)
    done.2.link.device.memory = c.link.device.memory ∧
      (t.Maps address.toNat quantity.toNat →
        ∃ values, done.1 = .ok values ∧ values.length = quantity.toNat ∧
          ∀ i < quantity.toNat, values[i]? = t.cell? (address.toNat + i)) ∧
      (¬ t.Maps address.toNat quantity.toNat →
        done.1 = .error (.exception bank.code.toByte ExceptionCode.illegalDataAddress.toByte) ∧
          ∃ before first after,
            Chunk.plan address quantity (bank.ceiling limits) = .ok (before ++ first :: after) ∧
            (∀ span ∈ before, t.Maps span.start.toNat span.count.toNat) ∧
            ¬ t.Maps first.start.toNat first.count.toNat ∧
            done.2.sent = c.sent ++ (before ++ [first]).map (bank.ask slave)) := by
  intro t done
  have positive : 0 < (bank.ceiling limits).toNat := Nat.pos_of_ne_zero fun none =>
    range.1 (UInt16.toNat_inj.mp none)
  have small : quantity.toNat ≤ 0xFFFF := Nat.le_of_lt_succ quantity.toNat_lt
  have allowed := bank.allowed_pieces (bank.ceiling limits) address quantity range.2
  have looked : Chunk.lookUp t (Chunk.pieces (bank.ceiling limits).toNat address.toNat quantity.toNat) =
      t.span? address.toNat quantity.toNat := by
    rw [Chunk.lookUp_of_tiles t (Chunk.tiles_pieces positive small inside), Nat.add_sub_cancel_left]
  have run : done = _ := bank.perform_readChunked_eq c (fun _ => false) range.1
  by_cases mapped : t.Maps address.toNat quantity.toNat
  · obtain ⟨values, found⟩ := (Device.Table.exists_span?_iff_maps _ _ _).mpr mapped
    obtain ⟨c', ok, reached⟩ := bank.readSpans_mapped ready slave limits.delayMs allowed (looked.trans found) []
    rw [run, ok]
    exact ⟨reached.memory, fun _ => ⟨values, rfl, Device.Table.span?_eq_some_iff.mp found⟩, absurd mapped⟩
  · have missing := looked.trans ((Device.Table.span?_eq_none_iff _ _ _).mpr mapped)
    obtain ⟨c', before, first, after, refused, parts, cells, hole, reached⟩ :=
      bank.readSpans_unmapped ready slave limits.delayMs allowed missing []
    rw [run, refused]
    exact ⟨reached.memory, fun all => absurd all mapped, fun _ => ⟨rfl, before, first, after,
      by rw [Chunk.plan_eq_ok range.1, parts], cells, hole, reached.sent⟩⟩

/-- A client of a device that has the last two holding registers only. -/
def atTheEnd : Client DirectLink :=
  { link := { device := { holding := (Device.Table.empty.set 0xFFFE 6).set 0xFFFF 7 } } }

/-- The last two registers are read in chunks of one or of two; a range that begins before them is refused with
its first chunk. -/
theorem readChunked_atTheEnd :
    (∃ values,
      (atTheEnd.perform (holdingRegisters.readChunked 1 0xFFFE 2 { maxReadRegisters := 1 } fun _ => false)).1 =
        .ok values ∧ values.length = 2 ∧
        ∀ i < 2, values[i]? = (atTheEnd.link.device.memory.table holdingRegisters).cell? (0xFFFE + i)) ∧
      (atTheEnd.perform (holdingRegisters.readChunked 1 0xFFFD 3 { maxReadRegisters := 2 } fun _ => false)).1 =
        .error (.exception 0x03 0x02) := by
  constructor
  · exact (readChunked_inside holdingRegisters (c := atTheEnd) ⟨rfl, rfl⟩ 1 0xFFFE 2 (by decide)
      { maxReadRegisters := 1 } (by decide)).2.1 (by decide)
  · exact ((readChunked_inside holdingRegisters (c := atTheEnd) ⟨rfl, rfl⟩ 1 0xFFFD 3 (by decide)
      { maxReadRegisters := 2 } (by decide)).2.2 (by decide)).1

/-- What a chunked read past the end can give: the cells up to the last address, and the last one once more for
each address that does not exist. -/
structure Overrun (bank : Bank) (t : Device.Table bank.Cell) (ceiling address quantity : UInt16)
    (values : List bank.Cell) : Prop where
  range : ceiling ≠ 0 ∧ ceiling ≤ bank.maxQuantity
  /-- A chunk that starts at the last address has one cell. -/
  shape : ceiling.toNat = 1 ∨
    address.toNat + quantity.toNat = 0x10001 ∧ ceiling.toNat ∣ 0x10000 - address.toNat
  cells : ∃ before last, t.span? address.toNat (0xFFFF - address.toNat) = some before ∧
    t.get? 0xFFFF = some last ∧
    values = before ++ List.replicate (address.toNat + quantity.toNat - 0xFFFF) last

/-- A range that runs past the end is not always refused: a read that goes cell by cell, or whose chunks end with
the last address and leave one cell, gives the last cell in place of those that do not exist. -/
theorem readChunked_past_end (bank : Bank) (c : Client DirectLink) (slave : UInt8) (address quantity : UInt16)
    (past : 0x10000 < address.toNat + quantity.toNat) (limits : Limits) (values : List bank.Cell) :
    let outcome (stopped : DirectLink → Bool) :=
      (c.perform (bank.readChunked slave address quantity limits stopped)).1
    ((∃ stopped, outcome stopped = .ok values) ↔ outcome (fun _ => false) = .ok values) ∧
      (outcome (fun _ => false) = .ok values ↔ c.link.Ready ∧
        Overrun bank (c.link.device.memory.table bank) (bank.ceiling limits) address quantity values) := by
  intro outcome
  have small : quantity.toNat ≤ 0xFFFF := Nat.le_of_lt_succ quantity.toNat_lt
  have start : address.toNat ≤ 0xFFFF := Nat.le_of_lt_succ address.toNat_lt
  have sound (stopped : DirectLink → Bool) (ok : outcome stopped = .ok values) :
      c.link.Ready ∧
        Overrun bank (c.link.device.memory.table bank) (bank.ceiling limits) address quantity values := by
    have asked := ok
    simp only [outcome, perform_readChunked, Chunk.read] at asked
    by_cases none : bank.ceiling limits = 0
    · rw [Chunk.plan, if_pos none] at asked
      cases asked
    · rw [Chunk.plan_eq_ok none] at asked
      obtain ⟨ready, allowed, rest, found, rfl⟩ := bank.readSpans_eq_ok asked
      have positive : 0 < (bank.ceiling limits).toNat := Nat.pos_of_ne_zero fun zero =>
        none (UInt16.toNat_inj.mp zero)
      obtain ⟨shape, cells⟩ := (Chunk.lookUp_pieces_past _ positive small start past).mp found
      rw [Chunk.pieces_pos positive (by omega)] at ready allowed
      refine ⟨ready (List.cons_ne_nil _ _), ⟨none, ?_⟩, shape, cells⟩
      -- The first chunk is a full one, so the ceiling itself is an allowed quantity.
      have full : min quantity.toNat (bank.ceiling limits).toNat = (bank.ceiling limits).toNat := by
        refine Nat.min_eq_right ?_
        rcases shape with one | ⟨_, divides⟩
        · omega
        · have := Nat.le_of_dvd (by omega) divides
          omega
      have first : UInt16.ofNat (min quantity.toNat (bank.ceiling limits).toNat) ≤ bank.maxQuantity :=
        (allowed _ (List.mem_cons_self ..)).2
      rwa [full, UInt16.ofNat_toNat] at first
  have complete (ready : c.link.Ready)
      (overrun : Overrun bank (c.link.device.memory.table bank) (bank.ceiling limits) address quantity values) :
      outcome (fun _ => false) = .ok values := by
    have positive : 0 < (bank.ceiling limits).toNat := Nat.pos_of_ne_zero fun zero =>
      overrun.range.1 (UInt16.toNat_inj.mp zero)
    have found := (Chunk.lookUp_pieces_past _ positive small start past).mpr ⟨overrun.shape, overrun.cells⟩
    obtain ⟨c', done, -⟩ := bank.readSpans_mapped ready slave limits.delayMs
      (bank.allowed_pieces _ _ _ overrun.range.2) found []
    simp only [outcome, bank.perform_readChunked_eq c _ overrun.range.1, done]
    rfl
  refine ⟨⟨?_, fun ok => ⟨_, ok⟩⟩, sound _, fun h => complete h.1 h.2⟩
  rintro ⟨stopped, ok⟩
  obtain ⟨ready, overrun⟩ := sound stopped ok
  exact complete ready overrun

/-- Three registers from the last but one on, in chunks of two: the second chunk is the last register again. -/
theorem readChunked_past_end_atTheEnd :
    (atTheEnd.perform (holdingRegisters.readChunked 1 0xFFFE 3 { maxReadRegisters := 2 } fun _ => false)).1 =
        .ok [6, 7, 7] ∧
      ∀ values,
        (atTheEnd.perform (holdingRegisters.readChunked 1 0xFFFE 3 { maxReadRegisters := 3 } fun _ => false)).1 ≠
          .ok values := by
  constructor
  · exact (readChunked_past_end holdingRegisters atTheEnd 1 0xFFFE 3 (by decide)
      { maxReadRegisters := 2 } [6, 7, 7]).2.mpr
        ⟨⟨rfl, rfl⟩, ⟨by decide, .inr ⟨rfl, by decide⟩, [6], 7, by decide, by decide, rfl⟩⟩
  · intro values ok
    have overrun := ((readChunked_past_end holdingRegisters atTheEnd 1 0xFFFE 3 (by decide)
      { maxReadRegisters := 3 } values).2.mp ok).2
    exact absurd overrun.shape (by decide)

/-- Two registers from the last one on, cell by cell: a value for an address that does not exist. -/
theorem readChunked_repeats_last_register :
    0x10000 < (0xFFFF : UInt16).toNat + (2 : UInt16).toNat ∧
      (atTheEnd.perform (holdingRegisters.readChunked 1 0xFFFF 2 { maxReadRegisters := 1 } fun _ => false)).1 =
        .ok [7, 7] := by
  refine ⟨by decide, ?_⟩
  have found : Chunk.lookUp (atTheEnd.link.device.memory.table holdingRegisters) (Chunk.pieces 1 0xFFFF 2) =
      some [7, 7] :=
    (Chunk.lookUp_pieces_last _ Nat.one_pos Nat.two_pos (by decide)).mpr ⟨.inl rfl, 7, by decide, rfl⟩
  have allowed := holdingRegisters.allowed_pieces 1 0xFFFF 2 (by decide)
  obtain ⟨c', done, -⟩ := holdingRegisters.readSpans_mapped (c := atTheEnd) ⟨rfl, rfl⟩ 1 0 allowed found []
  rw [perform_readChunked_eq holdingRegisters atTheEnd _ (by decide)]
  exact congrArg Prod.fst done

end Modbus.Bank
