import Modbus.Proofs.InputOrder

/-! Rows of commands by the addresses that they span. Commands that all span registers form a row exactly if each
address from the lowest one to the furthest end belongs to one of them and to one only. Addresses are numbers here, so
a range may run past the last address of a device. -/
namespace Modbus

namespace Command

def Covers (c : Command) (address : Nat) : Prop := c.address.toNat ≤ address ∧ address < c.address.toNat + c.span

instance (c : Command) (address : Nat) : Decidable (c.Covers address) := inferInstanceAs (Decidable (_ ∧ _))

theorem covers_address {c : Command} (wide : 0 < c.span) : c.Covers c.address.toNat :=
  ⟨Nat.le_refl _, Nat.lt_add_of_pos_right wide⟩

/-- Of all tags only those of a bool span nothing. -/
theorem span_pos {c : Command} (known : DataType.ofTag? c.tag ≠ some .bool) : 0 < c.span := by
  unfold span DataType.registersOfTag
  cases type : DataType.ofTag? c.tag with
  | none => exact Nat.one_pos
  | some t =>
    rw [type] at known
    cases t with
    | bool => exact absurd rfl known
    | _ => decide

end Command

namespace Batch

variable {commands sorted : List Command} {start address : Nat}

/-- The lowest address, or 0 if there is no command. -/
def lowest (commands : List Command) : Nat := (commands.map fun c => c.address.toNat).min?.getD 0

/-- The end of the command that reaches furthest. -/
def reach (commands : List Command) : Nat := (commands.map fun c => c.address.toNat + c.span).max?.getD 0

/-- How many of the commands span the address. -/
def covering (address : Nat) (commands : List Command) : Nat := commands.countP fun c => c.Covers address

/-- Each address from the start up to the end of the commands belongs to one of them and to one only. -/
def CoversOnce (start : Nat) (commands : List Command) : Prop :=
  ∀ address, start ≤ address → address < reach commands → covering address commands = 1

theorem lowest_le {c : Command} (member : c ∈ commands) : lowest commands ≤ c.address.toNat :=
  List.min?_getD_le_of_mem (List.mem_map_of_mem member)

theorem le_lowest (nonempty : commands ≠ []) (above : ∀ c ∈ commands, start ≤ c.address.toNat) :
    start ≤ lowest commands := by
  unfold lowest
  cases least : (commands.map fun c => c.address.toNat).min? with
  | none => exact absurd (List.map_eq_nil_iff.mp (List.min?_eq_none_iff.mp least)) nonempty
  | some n => exact (List.le_min?_iff least).mpr (List.forall_mem_map.mpr above)

theorem le_reach {c : Command} (member : c ∈ commands) : c.address.toNat + c.span ≤ reach commands :=
  List.le_max?_getD_of_mem (List.mem_map_of_mem member)

theorem lt_reach_iff : address < reach commands ↔ ∃ c ∈ commands, address < c.address.toNat + c.span := by
  constructor
  · intro inside
    unfold reach at inside
    cases furthest : (commands.map fun c => c.address.toNat + c.span).max? with
    | none => rw [furthest] at inside; nomatch inside
    | some n =>
      rw [furthest] at inside
      obtain ⟨c, member, rfl⟩ := List.mem_map.mp (List.max?_mem furthest)
      exact ⟨c, member, inside⟩
  · rintro ⟨c, member, inside⟩
    exact Nat.lt_of_lt_of_le inside (le_reach member)

theorem covering_cons_of_covers {c : Command} (covers : c.Covers address) :
    covering address (c :: commands) = covering address commands + 1 :=
  List.countP_cons_of_pos (decide_eq_true covers)

theorem covering_cons_of_not_covers {c : Command} (beside : ¬ c.Covers address) :
    covering address (c :: commands) = covering address commands :=
  List.countP_cons_of_neg (by rwa [decide_eq_true_eq])

theorem covering_eq_zero_iff : covering address commands = 0 ↔ ∀ c ∈ commands, ¬ c.Covers address := by
  simp only [covering, List.countP_eq_zero, decide_eq_true_eq]

theorem covering_pos_iff : 0 < covering address commands ↔ ∃ c ∈ commands, c.Covers address := by
  simp only [covering, List.countP_pos_iff, decide_eq_true_eq]

theorem coversOnce_of_contiguousFrom (row : contiguousFrom start commands = true) : CoversOnce start commands := by
  induction commands generalizing start with
  | nil =>
    intro address _ upper
    nomatch upper
  | cons first rest ih =>
    obtain ⟨here, row⟩ := contiguousFrom_cons.mp row
    intro address lower upper
    by_cases inside : address < start + first.span
    · have later : covering address rest = 0 := by
        refine covering_eq_zero_iff.mpr fun c member covers => ?_
        have behind := le_address_of_contiguousFrom row member
        exact Nat.not_le_of_lt inside (Nat.le_trans behind covers.1)
      rw [covering_cons_of_covers ⟨by omega, by omega⟩, later]
    · have beside : ¬ first.Covers address := fun covers => inside (here ▸ covers.2)
      rw [covering_cons_of_not_covers beside]
      refine ih row address (Nat.le_of_not_lt inside) (lt_reach_iff.mpr ?_)
      obtain ⟨c, member, within⟩ := lt_reach_iff.mp upper
      rcases List.mem_cons.mp member with rfl | later
      · omega
      · exact ⟨c, later, within⟩

namespace CoversOnce

variable {first : Command} {rest : List Command}

/-- What covers the start begins there, and nothing begins before the first command. -/
theorem address_eq (once : CoversOnce start (first :: rest)) (wide : 0 < first.span)
    (low : start ≤ first.address.toNat) (least : ∀ c ∈ rest, first.address ≤ c.address) :
    first.address.toNat = start := by
  have furthest := le_reach (List.mem_cons_self (a := first) (l := rest))
  have covered := once start (Nat.le_refl _) (by omega)
  obtain ⟨c, member, covers⟩ := covering_pos_iff.mp (Nat.lt_of_lt_of_eq Nat.one_pos covered.symm)
  rcases List.mem_cons.mp member with rfl | later
  · exact Nat.le_antisymm covers.1 low
  · exact Nat.le_antisymm (Nat.le_trans (UInt16.le_iff_toNat_le.mp (least c later)) covers.1) low

/-- Where the first command is, none of the others is. -/
theorem covering_rest (once : CoversOnce start (first :: rest)) (here : first.address.toNat = start)
    (covers : first.Covers address) : covering address rest = 0 := by
  have upper : address < reach (first :: rest) := Nat.lt_of_lt_of_le covers.2 (le_reach List.mem_cons_self)
  have covered := once address (here ▸ covers.1) upper
  rw [covering_cons_of_covers covers] at covered
  exact Nat.succ.inj covered

/-- So the others begin behind it. -/
theorem end_le_address (once : CoversOnce start (first :: rest)) (here : first.address.toNat = start) {c : Command}
    (member : c ∈ rest) (wide : 0 < c.span) (low : start ≤ c.address.toNat) :
    start + first.span ≤ c.address.toNat := by
  refine Nat.le_of_not_lt fun overlap => ?_
  have uncovered := once.covering_rest here ⟨here ▸ low, here ▸ overlap⟩
  exact covering_eq_zero_iff.mp uncovered c member (Command.covers_address wide)

theorem tail (once : CoversOnce start (first :: rest)) (here : first.address.toNat = start) :
    CoversOnce (start + first.span) rest := by
  intro address lower upper
  obtain ⟨c, member, within⟩ := lt_reach_iff.mp upper
  have beside : ¬ first.Covers address := fun covers => Nat.not_lt_of_le lower (here ▸ covers.2)
  rw [← covering_cons_of_not_covers beside]
  exact once address (Nat.le_of_add_right_le lower) (lt_reach_iff.mpr ⟨c, List.mem_cons_of_mem _ member, within⟩)

end CoversOnce

theorem contiguousFrom_of_coversOnce (ascending : sorted.Pairwise fun a b => a.address ≤ b.address)
    (wide : ∀ c ∈ sorted, 0 < c.span) (above : ∀ c ∈ sorted, start ≤ c.address.toNat)
    (once : CoversOnce start sorted) : contiguousFrom start sorted = true := by
  induction sorted generalizing start with
  | nil => rfl
  | cons first rest ih =>
    obtain ⟨least, ascending⟩ := List.pairwise_cons.mp ascending
    obtain ⟨width, wide⟩ := List.forall_mem_cons.mp wide
    obtain ⟨low, above⟩ := List.forall_mem_cons.mp above
    have here := once.address_eq width low least
    refine contiguousFrom_cons.mpr ⟨here, ih ascending wide ?_ (once.tail here)⟩
    intro c member
    exact once.end_le_address here member (wide c member) (above c member)

/-- Commands with registers form a row exactly if there are two or more of them and they cover their range without gap
and without overlap. -/
theorem areConsecutive_iff_covering (known : ∀ c ∈ commands, DataType.ofTag? c.tag ≠ some .bool) :
    areConsecutive commands = true ↔ 2 ≤ commands.length ∧
      ∀ address, lowest commands ≤ address → address < reach commands → covering address commands = 1 := by
  have order := perm_byAddress commands
  have counted (address : Nat) : covering address (byAddress commands) = covering address commands :=
    order.countP_eq _
  have ends (address : Nat) : address < reach (byAddress commands) ↔ address < reach commands := by
    simp only [lt_reach_iff, order.mem_iff]
  rw [areConsecutive_iff]
  constructor
  · rintro ⟨two, start, row⟩
    refine ⟨two, fun address lower upper => ?_⟩
    have nonempty : commands ≠ [] := by
      rintro rfl
      nomatch two
    have first : start ≤ lowest commands := by
      refine le_lowest nonempty fun c member => ?_
      exact le_address_of_contiguousFrom row (order.mem_iff.mpr member)
    rw [← counted]
    exact coversOnce_of_contiguousFrom row address (Nat.le_trans first lower) ((ends address).mpr upper)
  · rintro ⟨two, once⟩
    refine ⟨two, lowest commands, contiguousFrom_of_coversOnce (pairwise_byAddress commands) ?_ ?_ ?_⟩
    · intro c member
      exact Command.span_pos (known c (order.mem_iff.mp member))
    · intro c member
      exact lowest_le (order.mem_iff.mp member)
    · intro address lower upper
      rw [counted]
      exact once address lower ((ends address).mp upper)

/-- A value of two registers at the last address, given before one of an unknown type next to it: together they run
past the last address. -/
theorem areConsecutive_past_last_address :
    let wide : Command := { slave := 1, function := 0x10, address := 65535, tag := "uint32" }
    let unknown : Command := { slave := 1, function := 0x10, address := 65534, tag := "string" }
    (∀ c ∈ [wide, unknown], DataType.ofTag? c.tag ≠ some .bool) ∧
      lowest [wide, unknown] = 65534 ∧ reach [wide, unknown] = 65537 ∧
        (∀ address, 65534 ≤ address → address < 65537 → covering address [wide, unknown] = 1) ∧
          areConsecutive [wide, unknown] = true := by
  intro wide unknown
  have known : ∀ c ∈ [wide, unknown], DataType.ofTag? c.tag ≠ some .bool := by decide +kernel
  have least : lowest [wide, unknown] = 65534 := by decide +kernel
  have furthest : reach [wide, unknown] = 65537 := by decide +kernel
  have once : ∀ address, 65534 ≤ address → address < 65537 → covering address [wide, unknown] = 1 := by
    intro address lower upper
    have three : ∀ k < 3, covering (65534 + k) [wide, unknown] = 1 := by decide +kernel
    rw [← Nat.add_sub_of_le lower]
    exact three _ (by omega)
  refine ⟨known, least, furthest, once, (areConsecutive_iff_covering known).mpr ⟨Nat.le_refl _, ?_⟩⟩
  rw [least, furthest]
  exact once

end Batch

end Modbus
