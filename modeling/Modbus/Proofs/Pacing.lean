import Mathlib.Data.List.Basic

/-! Things done one after another with a pause between each two: what comes first, what is added at the end, and how
many pauses there are. -/
namespace Modbus.Pacing

variable {β γ : Type} (pause : Nat → β) (delay : Nat)

/-- With a pause between each two, unless the delay is 0. -/
def spaced (xs : List β) : List β := if delay = 0 then xs else xs.intersperse (pause delay)

/-- The pause before something; none if nothing was done before. -/
def gap (begun : Bool) : List β := if begun && delay != 0 then [pause delay] else []

/-- With a pause before each but the first, and before that one too if something was done before. -/
def trail : Bool → List β → List β
  | _, [] => []
  | begun, x :: xs => gap pause delay begun ++ x :: trail true xs

variable {pause delay} {begun : Bool} {xs : List β}

theorem trail_cons (x : β) :
    trail pause delay begun (x :: xs) = gap pause delay begun ++ x :: trail pause delay true xs := rfl

theorem spaced_eq_trail (xs : List β) : spaced pause delay xs = trail pause delay false xs := by
  have later (x : β) (xs : List β) : spaced pause delay (x :: xs) = x :: trail pause delay true xs := by
    induction xs generalizing x with
    | nil => exact ite_self _
    | cons y ys ih =>
      rw [trail_cons, ← ih y]
      unfold spaced gap
      by_cases none : delay = 0
      · simp [none]
      · simp [none, List.intersperse_cons_cons]
  cases xs with
  | nil => exact ite_self _
  | cons x xs => exact later x xs

theorem trail_append (xs ys : List β) :
    trail pause delay begun (xs ++ ys) =
      trail pause delay begun xs ++ trail pause delay (begun || !xs.isEmpty) ys := by
  induction xs generalizing begun with
  | nil => rw [List.isEmpty_nil, Bool.not_true, Bool.or_false]; rfl
  | cons x xs ih =>
    rw [List.cons_append, trail_cons, trail_cons, ih, Bool.true_or, List.isEmpty_cons, Bool.not_false, Bool.or_true,
      List.append_assoc, List.cons_append]

/-- What is added at the end stands behind a pause, if it is not the first. -/
theorem spaced_append_singleton (xs : List β) (x : β) :
    spaced pause delay (xs ++ [x]) = spaced pause delay xs ++ gap pause delay (!xs.isEmpty) ++ [x] := by
  rw [spaced_eq_trail, spaced_eq_trail, trail_append, Bool.false_or, List.append_assoc]
  rfl

theorem spaced_prefix {xs ys : List β} (front : xs <+: ys) : spaced pause delay xs <+: spaced pause delay ys := by
  obtain ⟨rest, rfl⟩ := front
  rw [spaced_eq_trail, spaced_eq_trail, trail_append]
  exact List.prefix_append _ _

/-- Without the pauses it is what was done. -/
theorem filterMap_spaced {f : β → Option γ} (skips : f (pause delay) = none) (xs : List β) :
    (spaced pause delay xs).filterMap f = xs.filterMap f := by
  have silent (begun : Bool) : (gap pause delay begun).filterMap f = [] := by
    unfold gap
    split
    · exact List.filterMap_cons_none skips
    · rfl
  have all (begun : Bool) : (trail pause delay begun xs).filterMap f = xs.filterMap f := by
    induction xs generalizing begun with
    | nil => rfl
    | cons x xs ih =>
      rw [trail_cons, List.filterMap_append, silent, List.nil_append, List.filterMap_cons, List.filterMap_cons, ih]
  rw [spaced_eq_trail, all]

/-- There is one pause fewer than things done. -/
theorem filterMap_spaced_pauses {f : β → Option Nat} (counts : f (pause delay) = some delay)
    (others : ∀ x ∈ xs, f x = none) :
    (spaced pause delay xs).filterMap f = List.replicate (if delay = 0 then 0 else xs.length - 1) delay := by
  by_cases none : delay = 0
  · rw [spaced, if_pos none, if_pos none, List.filterMap_eq_nil_iff.mpr others]
    rfl
  · have paused : gap pause delay true = [pause delay] := if_pos (by simpa using none)
    have later (xs : List β) (others : ∀ x ∈ xs, f x = Option.none) :
        (trail pause delay true xs).filterMap f = List.replicate xs.length delay := by
      induction xs with
      | nil => rfl
      | cons x xs ih =>
        obtain ⟨here, others⟩ := List.forall_mem_cons.mp others
        rw [trail_cons, paused, List.singleton_append, List.filterMap_cons_some counts, List.filterMap_cons_none here,
          ih others, List.length_cons, List.replicate_succ]
    rw [spaced_eq_trail, if_neg none]
    cases xs with
    | nil => rfl
    | cons x xs =>
      obtain ⟨here, others⟩ := List.forall_mem_cons.mp others
      have first : gap pause delay false = [] := rfl
      rw [trail_cons, first, List.nil_append, List.filterMap_cons_none here, later xs others, List.length_cons,
        Nat.add_sub_cancel]

end Modbus.Pacing
