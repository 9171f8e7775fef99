import Modbus.Client.Batch
import Modbus.Proofs.Direct

/-! Operations that store. Over a ready link each of them has one effect on the memory, which it has had if it
succeeds, and a condition under which it does succeed. Both compose along a sequence. -/
namespace Modbus.Client

variable {α β : Type}

/-- If the operation succeeds, it has turned the memory into `after`; if `fits` holds, it does succeed. -/
structure Stores (a : Action DirectLink α) (fits : Memory → Prop) (after : Memory → Memory) : Prop where
  ready : ∀ c : Client DirectLink, c.link.Ready → (c.perform a).2.link.Ready
  effect : ∀ (c : Client DirectLink) (x : α), c.link.Ready → (c.perform a).1 = .ok x →
    (c.perform a).2.link.device.memory = after c.link.device.memory
  succeeds : ∀ c : Client DirectLink, c.link.Ready → fits c.link.device.memory → ∃ x, (c.perform a).1 = .ok x

namespace Stores

theorem pure (x : α) : Stores (pure x) (fun _ => True) id where
  ready _ ready := ready
  effect _ _ _ _ := rfl
  succeeds _ _ _ := ⟨x, rfl⟩

/-- An operation that fails before any request stores whatever one likes. -/
theorem throw (e : Error) (after : Memory → Memory) :
    Stores (throw e : Action DirectLink α) (fun _ => False) after where
  ready _ ready := ready
  effect _ _ _ ok := nomatch ok
  succeeds _ _ never := never.elim

theorem bind {a : Action DirectLink α} {f : α → Action DirectLink β} {fits fits' : Memory → Prop}
    {after after' : Memory → Memory} (first : Stores a fits after) (rest : ∀ x, Stores (f x) fits' after') :
    Stores (a >>= f) (fun m => fits m ∧ fits' (after m)) fun m => after' (after m) where
  ready c ready := by
    have next := first.ready c ready
    rcases done : c.perform a with ⟨_ | x, c'⟩ <;> rw [done] at next
    · rw [perform_bind_error done]
      exact next
    · rw [perform_bind_ok done]
      exact (rest x).ready c' next
  effect c y ready ok := by
    have next := first.ready c ready
    have effect (x : α) := first.effect c x ready
    rcases done : c.perform a with ⟨_ | x, c'⟩ <;> rw [done] at next effect
    · rw [perform_bind_error done] at ok
      nomatch ok
    · rw [perform_bind_ok done] at ok ⊢
      rw [(rest x).effect c' y next ok, effect x rfl]
  succeeds c ready := by
    rintro ⟨now, later⟩
    have next := first.ready c ready
    have effect (x : α) := first.effect c x ready
    obtain ⟨x, ok⟩ := first.succeeds c ready now
    rcases done : c.perform a with ⟨_ | x', c'⟩ <;> rw [done] at ok next effect
    · nomatch ok
    · obtain rfl := Except.ok.inj ok
      rw [perform_bind_ok done]
      exact (rest _).succeeds c' next (effect _ rfl ▸ later)

/-- With a condition that says more and the same effect in other words. -/
theorem conseq {a : Action DirectLink α} {fits fits' : Memory → Prop} {after after' : Memory → Memory}
    (h : Stores a fits after) (enough : ∀ m, fits' m → fits m) (same : ∀ m, after m = after' m) :
    Stores a fits' after' where
  ready := h.ready
  effect c x ready ok := (h.effect c x ready ok).trans (same _)
  succeeds c ready held := h.succeeds c ready (enough _ held)

end Stores

theorem pace_stores (delay : Nat) (issued : Bool) : Stores (pace delay issued) (fun _ => True) id := by
  have done (c : Client DirectLink) : ∃ c', c.perform (pace delay issued) = (.ok (), c') ∧
      (c.link.Ready → Reaches c c' c.link.device.memory []) := by
    unfold pace
    cases issued && delay != 0 with
    | true => exact ⟨c.pause delay, rfl, fun ready => reaches_pause ready delay⟩
    | false => exact ⟨c, rfl, .refl⟩
  constructor
  · intro c ready
    obtain ⟨c', paused, reached⟩ := done c
    rw [paused]
    exact (reached ready).ready
  · intro c _ ready _
    obtain ⟨c', paused, reached⟩ := done c
    rw [paused]
    exact (reached ready).memory
  · intro c _ _
    obtain ⟨c', paused, -⟩ := done c
    exact ⟨(), congrArg Prod.fst paused⟩

end Modbus.Client

namespace Modbus

open Client (Stores)

theorem Assignment.stores (s : Assignment) (slave : UInt8) :
    Stores (s.write slave) (fun m => s.Admissible ∧ s.Mapped m) s.apply := by
  by_cases admissible : s.Admissible
  · constructor
    · intro c ready
      exact (s.perform_write ready slave admissible).2.ready
    · intro c _ ready ok
      obtain ⟨outcome, reached⟩ := s.perform_write ready slave admissible
      rw [reached.memory]
      split
      case isTrue => rfl
      case isFalse unmapped => rw [outcome, if_neg unmapped] at ok; nomatch ok
    · intro c ready fits
      exact ⟨(), (s.perform_write ready slave admissible).1.trans (if_pos fits.2)⟩
  · obtain ⟨e, -, refused⟩ := s.write_out_of_range (σ := DirectLink) slave admissible
    rw [refused]
    exact (Stores.throw e s.apply).conseq (fun _ fits => admissible fits.1) fun _ => rfl

namespace Client

theorem writeWords_stores (slave : UInt8) (address : UInt16) (words : List UInt16) :
    Stores (writeWords slave address words)
      (fun m => (Assignment.registers address words).Admissible ∧ m.holding.Maps address.toNat words.length)
      (Assignment.registers address words).apply := by
  unfold writeWords
  split
  case h_1 value =>
    exact (Assignment.stores (.register address value) slave).conseq (fun _ fits => ⟨trivial, fits.2⟩) fun _ => rfl
  case h_2 => exact Assignment.stores (.registers address words) slave

/-- A run of registers, however many requests it takes. -/
theorem writeRun_stores (delay : Nat) {ceiling : Nat} (positive : 0 < ceiling)
    (most : ceiling ≤ Protocol.maxWriteRegisters.toNat) (slave : UInt8) (address : Nat) (words : List UInt16)
    (issued : Bool) :
    Stores (writeRun delay ceiling slave address words issued) (fun m => m.holding.Maps address words.length)
      (Assignment.registers (.ofNat address) words).apply := by
  induction size : words.length using Nat.strongRecOn generalizing address words issued with
  | ind remaining ih =>
    subst size
    rw [writeRun]
    by_cases more : 0 < words.length
    · rw [if_pos ⟨positive, more⟩]
      have left : (words.drop ceiling).length = words.length - ceiling := List.length_drop
      have rest := ih (words.drop ceiling).length (by omega) (address + ceiling) (words.drop ceiling) true rfl
      have first := Assignment.stores (.registers (.ofNat address) (words.take ceiling)) slave
      refine ((pace_stores delay issued).bind fun _ => first.bind fun _ => rest).conseq ?_ ?_
      · intro m mapped
        have inside := mapped.inside more
        have here : (UInt16.ofNat address).toNat = address := Word.toNat_ofNat (by omega)
        have size : (words.take ceiling).length = min ceiling words.length := List.length_take
        obtain ⟨front, back⟩ := Device.Table.maps_take_drop mapped ceiling
        refine ⟨trivial, ⟨⟨by omega, by omega⟩, ?_⟩, Device.Table.maps_store back _ _⟩
        rw [← here] at front
        exact front
      · intro m
        exact congrArg (fun holding => { m with holding }) (m.holding.store_take_drop address ceiling words)
    · rw [if_neg fun h => more h.2]
      obtain rfl : words = [] := List.eq_nil_of_length_eq_zero (by omega)
      exact (Stores.pure issued).conseq (fun _ _ => trivial) fun _ => rfl

end Client

end Modbus
