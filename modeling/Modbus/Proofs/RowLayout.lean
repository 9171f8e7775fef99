import Modbus.Proofs.BatchFault

/-! Registers by their offset in a row. Whoever counts the registers of a type comes to one number, be it to write a value,
to read one or to tell where a command ends. So in a row that is written together the registers of a command stand as
far behind the first one as its address is behind the lowest. -/
namespace Modbus

namespace Value

variable {t : DataType} {registers : List UInt16}

theorem exists_decodeExact?_of_length (o : ByteOrder) (bit : Nat) (size : registers.length = t.width) :
    ∃ v, decodeExact? t o bit registers = some v := by
  by_cases wide : 1 < t.width
  · exact ⟨_, decodeExact?_wide wide o bit size⟩
  · have one : t.width = 1 := Nat.le_antisymm (Nat.le_of_not_lt wide) t.width_bounds.1
    obtain ⟨r, rfl⟩ := List.length_eq_one_iff.mp (size.trans one)
    cases t with
    | bool | uint16 | int16 => exact ⟨_, rfl⟩
    | _ => exact absurd one (by decide)

theorem length_of_decodeExact? {o : ByteOrder} {bit : Nat} {v : Value} (found : decodeExact? t o bit registers = some v) :
    registers.length = t.width := by
  unfold decodeExact? at found
  split at found
  case h_10 => nomatch found
  all_goals rfl

/-- Registers are read as a value of a type as soon as there are as many as the type takes. A bool is one of sixteen bits. -/
theorem exists_decode_iff {tag : String} (known : DataType.ofTag? tag = some t) (bit : UInt8) (o : ByteOrder) :
    (∃ v, decode registers tag bit o = .ok v) ↔ t.width ≤ registers.length ∧ (t = .bool → bit ≤ 15) := by
  simp only [decode, known]
  by_cases enough : t.width ≤ registers.length
  · obtain ⟨v, found⟩ := exists_decodeExact?_of_length o bit.toNat (t := t) (List.length_take_of_le enough)
    rw [found, and_iff_right enough]
    dsimp only
    split
    case isTrue beyond =>
      refine iff_of_false ?_ fun inside => UInt8.not_le.mpr beyond.2 (inside beyond.1)
      rintro ⟨_, made⟩
      cases made
    case isFalse inside => exact iff_of_true ⟨v, rfl⟩ fun isBool => UInt8.not_lt.mp fun beyond => inside ⟨isBool, beyond⟩
  · rw [iff_false_right fun both => enough both.1]
    cases found : decodeExact? t o bit.toNat (registers.take t.width) with
    | none =>
      rintro ⟨_, made⟩
      cases made
    | some v =>
      have size := length_of_decodeExact? found
      rw [List.length_take] at size
      exact absurd (by omega) enough

theorem exists_error_encodeAs_iff (v : Value) (tag : String) (o : ByteOrder) :
    (∃ e, v.encodeAs tag o = .error e) ↔ DataType.ofTag? tag = none := by
  cases known : DataType.ofTag? tag with
  | none => exact iff_of_true ⟨.unsupportedType tag, by rw [encodeAs, known]⟩ rfl
  | some t =>
    obtain ⟨words, encoded, -⟩ := v.encodeAs_of_tag known o
    rw [encoded]
    refine iff_of_false ?_ (Option.some_ne_none t)
    rintro ⟨_, failed⟩
    cases failed

end Value

theorem DataType.width_eq_registersOfTag {tag : String} {t : DataType} (known : ofTag? tag = some t) :
    t.width = max 1 (registersOfTag tag) := by
  rw [width, registersOfTag, known, Nat.max_comm]

namespace Batch

variable {commands : List Command} {start : Nat}

/-- What a row has in front of a command are the registers from the start up to the address of the command. -/
theorem split_of_contiguousFrom (row : contiguousFrom start commands = true)
    (sizes : ∀ c ∈ commands, c.words.length = c.span) {c : Command} (member : c ∈ commands) :
    ∃ before after, registers commands = before ++ (c.words ++ after) ∧ start + before.length = c.address.toNat := by
  induction commands generalizing start with
  | nil => nomatch member
  | cons first rest ih =>
    obtain ⟨here, row⟩ := contiguousFrom_cons.mp row
    obtain ⟨size, sizes⟩ := List.forall_mem_cons.mp sizes
    rcases List.mem_cons.mp member with rfl | later
    · exact ⟨[], registers rest, rfl, here.symm⟩
    · obtain ⟨before, after, split, offset⟩ := ih row sizes later
      refine ⟨first.words ++ before, after, ?_, ?_⟩
      · rw [List.append_assoc, ← split]
        rfl
      · rw [List.length_append, size, ← Nat.add_assoc, offset]

/-- Encoding fails for exactly the unknown tags. Otherwise it takes as many registers as decoding needs at least, and for
numbers as many as a command under the tag spans. So commands in a row that are all numbers can be encoded one behind
the other, and each one's registers begin at the offset of its address from the lowest one. -/
theorem encodeAll_at_offsets :
    (∀ (v : Value) (tag : String) (o : ByteOrder),
      ((∃ e, v.encodeAs tag o = .error e) ↔ DataType.ofTag? tag = none) ∧
      ∀ t, DataType.ofTag? tag = some t →
        let count := max 1 (DataType.registersOfTag tag)
        (∃ words, v.encodeAs tag o = .ok words ∧ words.length = count) ∧
        (∀ registers bit, (∃ w, Value.decode registers tag bit o = .ok w) ↔
          count ≤ registers.length ∧ (t = .bool → bit ≤ 15)) ∧
        (t ≠ .bool → ∀ c : Command, c.tag = tag → c.span = count)) ∧
    ∀ commands, areConsecutive commands = true →
      (∀ c ∈ commands, ∃ t, DataType.ofTag? c.tag = some t ∧ t ≠ .bool) →
      ∃ words, Client.encodeAll (byAddress commands) = .ok words ∧ words.length = total commands ∧
        ∀ c ∈ commands, lowest commands ≤ c.address.toNat ∧
          ∃ own, c.encode = .ok own ∧ own.length = c.span ∧
            (words.drop (c.address.toNat - lowest commands)).take c.span = own := by
  constructor
  · intro v tag o
    refine ⟨v.exists_error_encodeAs_iff tag o, fun t known => ?_⟩
    rw [← DataType.width_eq_registersOfTag known]
    refine ⟨v.encodeAs_of_tag known o, fun registers bit => Value.exists_decode_iff known bit o, ?_⟩
    rintro numeric c rfl
    rw [Command.span, DataType.registersOfTag, known]
    cases t with
    | bool => exact absurd rfl numeric
    | _ => rfl
  · intro commands consecutive numbers
    have together : Client.coalescable commands = true := by
      rw [Client.coalescable, consecutive, Bool.and_true, List.all_eq_true]
      intro c member
      obtain ⟨t, known, numeric⟩ := numbers c member
      rw [known]
      exact bne_iff_ne.mpr numeric
    obtain ⟨encoded, first, rest, sorted, row⟩ := Client.row_of_coalescable together
    rw [← sorted, ← lowest_eq_of_byAddress sorted] at row
    have order := perm_byAddress commands
    have sizes : ∀ c ∈ commands, c.words.length = c.span := fun c member => (encoded c member).2
    refine ⟨registers (byAddress commands), ?_, length_registers_byAddress sizes, ?_⟩
    · exact Client.encodeAll_eq fun c member => (encoded c (order.mem_iff.mp member)).1
    · intro c member
      obtain ⟨before, after, split, offset⟩ := split_of_contiguousFrom row
        (fun c member => sizes c (order.mem_iff.mp member)) (order.mem_iff.mpr member)
      have distance : c.address.toNat - lowest commands = before.length := Nat.sub_eq_of_eq_add (by omega)
      refine ⟨lowest_le member, c.words, (encoded c member).1, sizes c member, ?_⟩
      rw [distance, split, List.drop_left, ← sizes c member, List.take_left]

/-- A double between a double word and a short, given first. A coil takes a register in the encoding, none in a row. -/
theorem encodeAll_at_offsets_doubleInside :
    let double : Command := { slave := 1, function := 0x10, address := 12, tag := "LReal", value := .u16 1 }
    let word : Command := { slave := 1, function := 0x10, address := 10, tag := "DWord", value := .u32 65538 }
    let short : Command := { slave := 1, function := 0x10, address := 16, tag := "Short", value := .i16 (-1) }
    let row := [double, word, short]
    areConsecutive row = true ∧ (∀ c ∈ row, ∃ t, DataType.ofTag? c.tag = some t ∧ t ≠ .bool) ∧
      (∃ words, Client.encodeAll (byAddress row) = .ok words ∧ words.length = 7 ∧
        (words.drop 2).take 4 = [0x3FF0, 0, 0, 0]) ∧
      DataType.ofTag? "Coil" = some .bool ∧
        ∃ words, (Value.u16 7).encodeAs "Coil" .bigEndian = .ok words ∧ words.length = 1 := by
  intro double word short row
  have sorted : byAddress [word, double, short] = [word, double, short] :=
    List.mergeSort_of_pairwise (by decide +kernel)
  have ascending : areConsecutive [word, double, short] = true := by
    rw [areConsecutive, sorted]
    decide +kernel
  have consecutive : areConsecutive row = true := by
    refine areConsecutive_of_perm (.swap word double [short]) ?_ ascending
    unfold SpanlessBefore
    decide +kernel
  have known : DataType.ofTag? double.tag = some .float64 := by decide +kernel
  have numbers : ∀ c ∈ row, ∃ t, DataType.ofTag? c.tag = some t ∧ t ≠ .bool := by
    refine List.forall_mem_cons.mpr ⟨⟨.float64, known, nofun⟩, List.forall_mem_cons.mpr
      ⟨⟨.uint32, by decide +kernel, nofun⟩, List.forall_mem_singleton.mpr ⟨.int16, by decide +kernel, nofun⟩⟩⟩
  have coil : DataType.ofTag? "Coil" = some .bool := by decide +kernel
  obtain ⟨words, encoded, size, placed⟩ := encodeAll_at_offsets.2 row consecutive numbers
  obtain ⟨-, own, itself, -, here⟩ := placed double List.mem_cons_self
  have laid : double.words = [0x3FF0, 0, 0, 0] := by decide +kernel
  obtain rfl := Except.ok.inj (itself.symm.trans (Command.encode_of_tag known).1)
  have offset : double.address.toNat - lowest row = 2 := by decide +kernel
  have span : double.span = 4 := by decide +kernel
  rw [offset, span, laid] at here
  refine ⟨consecutive, numbers, ⟨words, encoded, ?_, here⟩, coil, ?_⟩
  · rw [size]
    decide +kernel
  · have one : max 1 (DataType.registersOfTag "Coil") = 1 := by decide +kernel
    obtain ⟨-, of_tag⟩ := encodeAll_at_offsets.1 (.u16 7) "Coil" .bigEndian
    exact one ▸ (of_tag .bool coil).1

end Batch

end Modbus
