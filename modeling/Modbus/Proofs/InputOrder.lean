import Modbus.Batch

/-! Whether commands form a row, and the order in which they are given. Sorting puts commands at different addresses in
their places, but commands at one address stay as they stand. So the answer depends on the order exactly if a command
that spans no register shares its address with one that does, and the commands form a row in some order. -/
namespace Modbus

/-- Where a command begins and how far it reaches. -/
def Command.place (c : Command) : Nat × Nat := (c.address.toNat, c.span)

namespace Batch

variable {commands sorted : List Command} {start : Nat}

/-- Commands that span no register, then the others, each part in the order in which it stands. -/
def spanlessFirst (commands : List Command) : List Command :=
  commands.filter (fun c => c.span == 0) ++ commands.filter fun c => !c.span == 0

/-- Behind a command that spans registers, none at its address spans no register. -/
def SpanlessBefore (commands : List Command) : Prop :=
  commands.Pairwise fun a b => a.address = b.address → b.span = 0 → a.span = 0

/-! Sorting by address. -/

theorem le_trans_address (a b c : Command) (first : decide (a.address ≤ b.address) = true)
    (rest : decide (b.address ≤ c.address) = true) : decide (a.address ≤ c.address) = true := by
  rw [decide_eq_true_eq] at first rest ⊢
  exact UInt16.le_trans first rest

theorem le_total_address (a b : Command) : (decide (a.address ≤ b.address) || decide (b.address ≤ a.address)) = true := by
  rw [Bool.or_eq_true, decide_eq_true_eq, decide_eq_true_eq]
  exact UInt16.le_total a.address b.address

theorem perm_byAddress (commands : List Command) : (byAddress commands).Perm commands := List.mergeSort_perm ..

theorem pairwise_byAddress (commands : List Command) :
    (byAddress commands).Pairwise fun a b => a.address ≤ b.address := by
  have ordered := List.pairwise_mergeSort le_trans_address le_total_address commands
  exact ordered.imp of_decide_eq_true

/-- Commands at one address keep their order. -/
theorem filter_byAddress (address : UInt16) (commands : List Command) :
    (byAddress commands).filter (fun c => c.address == address) = commands.filter fun c => c.address == address := by
  let here := commands.filter fun c => c.address == address
  have tied : here.Pairwise fun a b => decide (a.address ≤ b.address) = true := by
    refine List.pairwise_of_forall_mem_list fun a left b right => decide_eq_true ?_
    have first := (List.mem_filter.mp left).2
    have second := (List.mem_filter.mp right).2
    rw [eq_of_beq first, eq_of_beq second]
    exact UInt16.le_refl address
  have kept : here.Sublist (byAddress commands) :=
    List.sublist_mergeSort le_trans_address le_total_address tied List.filter_sublist
  have inside : here.Sublist ((byAddress commands).filter fun c => c.address == address) := by
    have filtered := kept.filter fun c => c.address == address
    rwa [List.filter_filter, List.filter_congr fun c _ => Bool.and_self _] at filtered
  exact (inside.eq_of_length ((perm_byAddress commands).symm.filter _).length_eq).symm

theorem pair_sublist_byAddress_iff {a b : Command} (same : a.address = b.address) :
    [a, b].Sublist (byAddress commands) ↔ [a, b].Sublist commands := by
  have restrict (l : List Command) :
      [a, b].Sublist l ↔ [a, b].Sublist (l.filter fun c => c.address == b.address) := by
    constructor
    · intro pair
      have filtered := pair.filter fun c => c.address == b.address
      rwa [List.filter_eq_self.mpr (by simp [same])] at filtered
    · intro pair
      exact pair.trans List.filter_sublist
  rw [restrict, filter_byAddress, ← restrict]

theorem spanlessBefore_byAddress_iff : SpanlessBefore (byAddress commands) ↔ SpanlessBefore commands := by
  simp only [SpanlessBefore, List.pairwise_iff_forall_sublist]
  constructor
  · intro before a b pair same
    exact before ((pair_sublist_byAddress_iff same).mpr pair) same
  · intro before a b pair same
    exact before ((pair_sublist_byAddress_iff same).mp pair) same

/-! Rows. -/

theorem le_address_of_contiguousFrom (row : contiguousFrom start commands = true) {c : Command} (member : c ∈ commands) :
    start ≤ c.address.toNat := by
  induction commands generalizing start with
  | nil => nomatch member
  | cons first rest ih =>
    obtain ⟨here, row⟩ := contiguousFrom_cons.mp row
    rcases List.mem_cons.mp member with rfl | later
    · exact Nat.le_of_eq here.symm
    · exact Nat.le_trans (Nat.le_add_right _ _) (ih row later)

/-- In a row each command ends before the later ones begin. -/
theorem pairwise_of_contiguousFrom (row : contiguousFrom start commands = true) :
    commands.Pairwise fun a b => a.address.toNat + a.span ≤ b.address.toNat := by
  induction commands generalizing start with
  | nil => exact .nil
  | cons first rest ih =>
    obtain ⟨here, row⟩ := contiguousFrom_cons.mp row
    refine .cons ?_ (ih row)
    intro c later
    rw [here]
    exact le_address_of_contiguousFrom row later

theorem spanlessBefore_of_contiguousFrom (row : contiguousFrom start commands = true) : SpanlessBefore commands := by
  refine (pairwise_of_contiguousFrom row).imp ?_
  intro a b apart same _
  rw [same] at apart
  omega

/-- Only the places of commands count. -/
theorem contiguousFrom_congr {others : List Command} (same : commands.map Command.place = others.map Command.place) :
    contiguousFrom start commands = contiguousFrom start others := by
  induction commands generalizing start others with
  | nil => rw [List.map_eq_nil_iff.mp same.symm]
  | cons first rest ih =>
    obtain ⟨other, later, rfl, place, places⟩ := List.map_eq_cons_iff.mp same.symm
    obtain ⟨address, span⟩ := Prod.mk.inj place
    simp only [contiguousFrom, address, span, ih places.symm]

/-- A row is found again from any order of its commands if those without registers come first at their addresses. -/
theorem contiguousFrom_of_perm (order : sorted.Perm commands) (row : contiguousFrom start commands = true)
    (ascending : sorted.Pairwise fun a b => a.address ≤ b.address) (spanless : SpanlessBefore sorted) :
    contiguousFrom start sorted = true := by
  let before (p q : Nat × Nat) : Prop := p.1 < q.1 ∨ p.1 = q.1 ∧ p.2 ≤ q.2
  have apart := pairwise_of_contiguousFrom row
  have first : commands.Pairwise fun a b => before a.place b.place := by
    refine apart.imp ?_
    intro a b apart
    simp only [before, Command.place]
    omega
  -- No two commands of a row that span registers have one address, in whatever order they stand.
  have alone : sorted.Pairwise fun a b => a.address = b.address → a.span = 0 ∨ b.span = 0 := by
    refine (order.pairwise_iff ?_).mpr (apart.imp ?_)
    · intro a b one same
      exact (one same.symm).symm
    · intro a b apart same
      rw [same] at apart
      omega
  have second : sorted.Pairwise fun a b => before a.place b.place := by
    refine ((ascending.and spanless).and alone).imp ?_
    rintro a b ⟨⟨ascending, spanless⟩, alone⟩
    have ordered := UInt16.le_iff_toNat_le.mp ascending
    by_cases same : a.address = b.address
    · have one := alone same
      have none := spanless same
      have place := congrArg UInt16.toNat same
      simp only [before, Command.place]
      omega
    · have different : a.address.toNat ≠ b.address.toNat := fun h => same (UInt16.toNat_inj.mp h)
      simp only [before, Command.place]
      omega
  have places : sorted.map Command.place = commands.map Command.place := by
    refine List.Perm.eq_of_pairwise ?_ (List.pairwise_map.mpr second) (List.pairwise_map.mpr first)
      (order.map Command.place)
    rintro ⟨a, m⟩ ⟨b, n⟩ _ _ left right
    simp only [before] at left right
    rw [Prod.mk.injEq]
    omega
  rw [contiguousFrom_congr places]
  exact row

theorem areConsecutive_iff :
    areConsecutive commands = true ↔ 2 ≤ commands.length ∧ ∃ start, contiguousFrom start (byAddress commands) = true := by
  unfold areConsecutive
  rw [Bool.and_eq_true, decide_eq_true_eq]
  refine and_congr_right fun two => ?_
  cases sorted : byAddress commands with
  | nil =>
    have size := (perm_byAddress commands).length_eq
    rw [sorted, List.length_nil] at size
    omega
  | cons first rest =>
    refine ⟨fun row => ⟨_, row⟩, ?_⟩
    rintro ⟨start, row⟩
    obtain rfl := (contiguousFrom_cons.mp row).1
    exact row

/-- The answer for one order holds for every other one in which commands without registers come first. -/
theorem areConsecutive_of_perm {others : List Command} (order : others.Perm commands)
    (spanless : SpanlessBefore others) (row : areConsecutive commands = true) : areConsecutive others = true := by
  rw [areConsecutive_iff] at row ⊢
  obtain ⟨two, start, row⟩ := row
  refine ⟨order.length_eq.symm ▸ two, start, ?_⟩
  exact contiguousFrom_of_perm (((perm_byAddress others).trans order).trans (perm_byAddress commands).symm) row
    (pairwise_byAddress others) (spanlessBefore_byAddress_iff.mpr spanless)

theorem spanlessBefore_of_areConsecutive (row : areConsecutive commands = true) : SpanlessBefore commands := by
  obtain ⟨_, start, row⟩ := areConsecutive_iff.mp row
  exact spanlessBefore_byAddress_iff.mp (spanlessBefore_of_contiguousFrom row)

theorem perm_spanlessFirst (commands : List Command) : (spanlessFirst commands).Perm commands :=
  List.filter_append_perm ..

theorem spanlessBefore_spanlessFirst (commands : List Command) : SpanlessBefore (spanlessFirst commands) := by
  refine List.pairwise_append.mpr ⟨?_, ?_, ?_⟩
  · refine List.pairwise_filter.mpr (List.pairwise_of_forall ?_)
    intro a b spanless _ _ _
    exact eq_of_beq spanless
  · refine List.pairwise_filter.mpr (List.pairwise_of_forall ?_)
    intro a b _ spanning _ spanless
    rw [spanless] at spanning
    nomatch spanning
  · intro a spanless b _ _ _
    exact eq_of_beq (List.mem_filter.mp spanless).2

/-- Commands form a row exactly if they do with those without registers first, and each of these stands before the
commands with registers at its address. -/
theorem areConsecutive_iff_spanlessFirst :
    areConsecutive commands = true ↔ areConsecutive (spanlessFirst commands) = true ∧ SpanlessBefore commands := by
  constructor
  · intro row
    exact ⟨areConsecutive_of_perm (perm_spanlessFirst commands) (spanlessBefore_spanlessFirst commands) row,
      spanlessBefore_of_areConsecutive row⟩
  · rintro ⟨row, spanless⟩
    exact areConsecutive_of_perm (perm_spanlessFirst commands).symm spanless row

/-- The answer is the same for every order of the commands, exactly if they form a row in none or no command without
registers shares its address with one that spans some. -/
theorem areConsecutive_perm_iff (commands : List Command) :
    (∀ others : List Command, others.Perm commands → areConsecutive others = areConsecutive commands) ↔
      areConsecutive (spanlessFirst commands) = false ∨
        ∀ a ∈ commands, ∀ b ∈ commands, a.address = b.address → b.span = 0 → a.span = 0 := by
  constructor
  · intro same
    cases row : areConsecutive (spanlessFirst commands) with
    | false => exact .inl rfl
    | true =>
      refine .inr ?_
      intro a left b right together spanless
      by_cases one : a = b
      · rw [one]
        exact spanless
      · -- With `a` in front, `b` stands behind it, and the commands still form a row.
        have formed : areConsecutive (a :: commands.erase a) = true := by
          rw [same _ (List.perm_cons_erase left).symm, ← same _ (perm_spanlessFirst commands)]
          exact row
        have behind : b ∈ commands.erase a := (List.mem_erase_of_ne (Ne.symm one)).mpr right
        exact (List.pairwise_cons.mp (spanlessBefore_of_areConsecutive formed)).1 b behind together spanless
  · intro either others order
    rw [Bool.eq_iff_iff]
    rcases either with none | apart
    · have never {list : List Command} (order : list.Perm commands) : ¬ areConsecutive list = true := by
        intro row
        have formed := areConsecutive_of_perm ((perm_spanlessFirst commands).trans order.symm)
          (spanlessBefore_spanlessFirst commands) row
        rw [none] at formed
        nomatch formed
      exact iff_of_false (never order) (never (.refl commands))
    · have spanless {list : List Command} (order : list.Perm commands) : SpanlessBefore list := by
        refine List.pairwise_of_forall_mem_list ?_
        intro a left b right
        exact apart a (order.mem_iff.mp left) b (order.mem_iff.mp right)
      exact ⟨areConsecutive_of_perm order.symm (spanless (.refl commands)),
        areConsecutive_of_perm order (spanless order)⟩

/-- A register and a bool at one address, in both orders: with the bool first they form a row, with the register first
they do not. -/
theorem areConsecutive_bool_last :
    let register : Command := { slave := 1, function := 0x06, address := 100 }
    let flag : Command := { slave := 1, function := 0x06, address := 100, tag := "bool" }
    [register, flag].Perm [flag, register] ∧ areConsecutive [flag, register] = true ∧
      areConsecutive [register, flag] = false := by
  intro register flag
  have bool_first : byAddress [flag, register] = [flag, register] := List.mergeSort_of_pairwise (by decide +kernel)
  have bool_last : byAddress [register, flag] = [register, flag] := List.mergeSort_of_pairwise (by decide +kernel)
  refine ⟨.swap .., ?_, ?_⟩
  · rw [areConsecutive, bool_first]
    decide +kernel
  · rw [areConsecutive, bool_last]
    decide +kernel

end Batch

end Modbus
