/-! Rounding of a quotient of natural numbers to a neighbouring whole number. -/
namespace Modbus.Rounding

/-- The nearest whole number, and of two equally near ones the even one. -/
def halfEven (n d : Nat) : Nat :=
  let q := n / d
  let r := n % d
  if 2 * r < d ∨ (2 * r = d ∧ q % 2 = 0) then q else q + 1

/-- The nearest whole number, and of two equally near ones the larger one. -/
def halfUp (n d : Nat) : Nat := (2 * n + d) / (2 * d)

theorem halfEven_mul (q d : Nat) (pos : 0 < d) : halfEven (q * d) d = q := by
  simp [halfEven, Nat.mul_div_cancel q pos, pos]

/-- Rounding moves by no more than half a unit. -/
theorem halfEven_near (n d : Nat) (pos : 0 < d) :
    2 * (halfEven n d * d) ≤ 2 * n + d ∧ 2 * n ≤ 2 * (halfEven n d * d) + d := by
  have whole : n / d * d + n % d = n := by rw [Nat.mul_comm]; exact Nat.div_add_mod n d
  have small := Nat.mod_lt n pos
  unfold halfEven
  dsimp only
  split
  · omega
  · rw [Nat.add_mul, Nat.one_mul]
    omega

end Modbus.Rounding
