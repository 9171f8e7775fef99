import Modbus.Proofs.BatchFault
import Modbus.Proofs.Pacing
import Modbus.Proofs.WriteCeiling

/-! What can be seen of a batch while it is written: its requests as far as they are confirmed, with a pause between
each two of them. A request that fails is the last one, and otherwise the batch itself decides how it ends. -/
namespace Modbus

open Pacing (spaced gap trail)

namespace Client

/-- A request and what came of it. -/
structure Exchange where
  request : Request
  outcome : Except Error Pdu

namespace Exchange

/-- A write fails like its request, or because the device does not repeat what was written. -/
def verdict (x : Exchange) : Except Error Unit := do
  let response ← x.outcome
  Response.checkEcho response x.request.function x.request.address x.request.echoedWord

def event (x : Exchange) : Event := .exchanged x.request x.outcome

end Exchange

variable {σ : Type}

/-- What was done, the oldest first, without what was only logged, as it is noted (`Operation.follows_runAll`). -/
def deeds (c : Client σ) : List Event :=
  c.events.reverse.filter fun
    | .logged _ => false
    | .exchanged .. | .paused _ => true

/-- The pauses between requests, the oldest first. -/
def pauses (c : Client σ) : List Nat :=
  c.deeds.filterMap fun
    | .paused ms => some ms
    | .exchanged .. | .logged _ => none

section Deeds

theorem deeds_recorded (c : Client σ) (entry : LogEntry) : (c.recorded entry).deeds = c.deeds := by
  unfold recorded Logger.pass
  split <;> simp [deeds]

theorem deeds_judged (c : Client σ) (r : Request) {α : Type} (verdict : Except Error α) :
    (c.judged r verdict).deeds = c.deeds := by
  cases verdict with
  | error e => exact deeds_recorded c _
  | ok x => rfl

variable [Link σ]

theorem deeds_paced (delay : Nat) (issued : Bool) (c : Client σ) :
    (c.paced delay issued).deeds = c.deeds ++ gap .paused delay issued := by
  unfold paced gap
  split
  · simp [deeds, pause]
  · exact (List.append_nil _).symm

theorem deeds_exchanged (c : Client σ) (r : Request) :
    (c.exchanged r).deeds = c.deeds ++ [.exchanged r (Link.send c.link r).1] := by
  rw [exchanged, deeds_recorded, ← deeds_recorded c (.ofRequest r)]
  simp [deeds, handed]

theorem deeds_ask {α : Type} (c : Client σ) (r : Request) (verdict : Pdu → Except Error α) :
    (c.perform (ask r verdict)).2.deeds = c.deeds ++ [.exchanged r (Link.send c.link r).1] := by
  have done := perform_execute c r
  unfold ask
  cases outcome : (Link.send c.link r).1 with
  | error e =>
    rw [outcome] at done
    rw [perform_bind_error done, deeds_exchanged, outcome]
  | ok response =>
    rw [outcome] at done
    rw [perform_bind_ok done, perform_judge, deeds_judged, deeds_exchanged, outcome]

/-- A write is one exchange, and ends with the verdict on it. -/
theorem exists_exchange_of_write (c : Client σ) (slave : UInt8) {s : Assignment} (admissible : s.Admissible) :
    ∃ x : Exchange, x.request = s.request slave ∧ (c.perform (s.write slave)).1 = x.verdict ∧
      (c.perform (s.write slave)).2.deeds = c.deeds ++ [x.event] := by
  rw [s.write_eq slave admissible, write_eq_ask]
  exact ⟨⟨s.request slave, (Link.send c.link (s.request slave)).1⟩, rfl, (perform_ask c _ _).1, deeds_ask c _ _⟩

end Deeds

/-- Requests one after another, until one of them fails or all are confirmed. -/
inductive Ran : List Request → List Exchange → Option Error → Prop where
  | finished : Ran [] [] none
  | failed {x : Exchange} {e : Error} (fails : x.verdict = .error e) (others : List Request) :
    Ran (x.request :: others) [x] (some e)
  | confirmed {x : Exchange} {xs : List Exchange} {others : List Request} {failure : Option Error}
    (confirms : x.verdict = .ok ()) (rest : Ran others xs failure) : Ran (x.request :: others) (x :: xs) failure

namespace Ran

variable {requests : List Request} {xs : List Exchange} {failure : Option Error}

theorem requests_prefix (ran : Ran requests xs failure) : xs.map Exchange.request <+: requests := by
  induction ran with
  | finished => exact List.prefix_refl []
  | failed _ others => exact (List.prefix_cons_inj _).mpr List.nil_prefix
  | confirmed _ _ ih => exact (List.prefix_cons_inj _).mpr ih

theorem confirmed_of_mem_dropLast (ran : Ran requests xs failure) : ∀ x ∈ xs.dropLast, x.verdict = .ok () := by
  induction ran with
  | finished | failed => exact fun _ member => nomatch member
  | @confirmed x xs _ _ confirms _ ih =>
    cases xs with
    | nil => exact fun _ member => nomatch member
    | cons y ys => exact List.forall_mem_cons.mpr ⟨confirms, ih⟩

theorem getLast?_of_failure {e : Error} (ran : Ran requests xs failure) (failing : failure = some e) :
    ∃ x, xs.getLast? = some x ∧ x.verdict = .error e := by
  induction ran with
  | finished => nomatch failing
  | @failed x e' fails _ =>
    obtain rfl := Option.some.inj failing
    exact ⟨x, rfl, fails⟩
  | @confirmed x xs _ _ _ _ ih =>
    obtain ⟨last, here, fails⟩ := ih failing
    refine ⟨last, ?_, fails⟩
    rw [List.getLast?_cons, here]
    rfl

theorem all_of_no_failure (ran : Ran requests xs failure) (unfailing : failure = none) :
    (∀ x ∈ xs, x.verdict = .ok ()) ∧ xs.map Exchange.request = requests := by
  induction ran with
  | finished => exact ⟨nofun, rfl⟩
  | failed => nomatch unfailing
  | confirmed confirms _ ih =>
    obtain ⟨all, same⟩ := ih unfailing
    exact ⟨List.forall_mem_cons.mpr ⟨confirms, all⟩, congrArg _ same⟩

end Ran

variable [Link σ]

/-- Over any link, writes in turn run until one of them fails, and pause before each but the first. -/
theorem exists_ran_writeInTurn (delay : Nat) (writes : List (UInt8 × Assignment))
    (admissible : ∀ w ∈ writes, w.2.Admissible) (issued : Bool) (c : Client σ) :
    let done := c.perform (writeInTurn delay writes issued)
    ∃ xs failure, Ran (writes.map fun w => w.2.request w.1) xs failure ∧
      done.1 = failure.elim (.ok (issued || !writes.isEmpty)) .error ∧
      done.2.deeds = c.deeds ++ trail .paused delay issued (xs.map Exchange.event) := by
  induction writes generalizing issued c with
  | nil => exact ⟨[], none, .finished, by rw [List.isEmpty_nil, Bool.not_true, Bool.or_false]; rfl,
      (List.append_nil _).symm⟩
  | cons w rest ih =>
    obtain ⟨slave, s⟩ := w
    obtain ⟨here, admissible⟩ := List.forall_mem_cons.mp admissible
    obtain ⟨x, request, verdict, deeds⟩ := exists_exchange_of_write (c.paced delay issued) slave here
    rw [deeds_paced] at deeds
    dsimp only
    rw [writeInTurn, perform_bind_ok (perform_pace delay issued c), List.map_cons, ← request]
    rcases done : (c.paced delay issued).perform (s.write slave) with ⟨e | _, c'⟩ <;> rw [done] at verdict deeds
    · rw [perform_bind_error done]
      exact ⟨[x], some e, .failed verdict.symm _, rfl, by rw [deeds, List.append_assoc]; rfl⟩
    · rw [perform_bind_ok done]
      obtain ⟨xs, failure, ran, ends, later⟩ := ih admissible true c'
      refine ⟨x :: xs, failure, .confirmed verdict.symm ran, ?_, ?_⟩
      · rw [ends, Bool.true_or, List.isEmpty_cons, Bool.not_false, Bool.or_true]
      · rw [later, deeds, List.append_assoc, List.append_assoc]
        rfl

end Client

open Client

/-- The requests that a batch hands over if every one of them is confirmed. -/
def Batch.requestsIfConfirmed (batch : Batch) (limits : Limits) : List Request :=
  (({ link := {} } : Client Confirming).perform (writeBatch batch limits)).2.sent

theorem Batch.requestsIfConfirmed_eq (batch : Batch) (limits : Limits) :
    batch.requestsIfConfirmed limits = (batch.plan limits).writes.map fun w => w.2.request w.1 := by
  let c : Client Confirming := { link := {} }
  have admissible : ∀ w ∈ (batch.plan limits).writes, w.2.Admissible := fun _ => Batch.admissible_writes
  obtain ⟨x, ok⟩ := perform_writeInTurn_confirming limits.delayMs _ admissible false c
  obtain ⟨k, -, sent, whole⟩ := exists_sent_writeInTurn limits.delayMs _ admissible false c
  rw [requestsIfConfirmed, (perform_writeBatch batch limits c).1, sent, whole x ok, List.take_length]
  rfl

namespace Client

/-- Over any link, the requests of a batch are the first ones of those that it hands over if all are confirmed, up to
the first one that fails or is not confirmed, and then the batch fails with that error. If all are confirmed, they are
all there, and the first fault of the batch decides how it ends. Between each two requests there is a pause, so there
is one pause less than there are requests, and no pause at all without a delay. The deeds noted are what happened to the
link, by `Operation.follows_runAll`. -/
theorem writeBatch_until_failure {σ : Type} [Link σ] (batch : Batch) (limits : Limits) (c : Client σ) :
    let done := c.perform (writeBatch batch limits)
    ∃ xs : List Exchange,
      done.2.deeds = c.deeds ++ spaced .paused limits.delayMs (xs.map Exchange.event) ∧
      done.2.pauses =
        c.pauses ++ List.replicate (if limits.delayMs = 0 then 0 else xs.length - 1) limits.delayMs ∧
      xs.map Exchange.request <+: batch.requestsIfConfirmed limits ∧
      (∀ x ∈ xs.dropLast, x.verdict = .ok ()) ∧
      ((∃ x e, xs.getLast? = some x ∧ x.verdict = .error e ∧ done.1 = .error e) ∨
        (∀ x ∈ xs, x.verdict = .ok ()) ∧ xs.map Exchange.request = batch.requestsIfConfirmed limits ∧
          done.1 = (batch.fault? limits).elim (.ok ()) .error) := by
  have admissible : ∀ w ∈ (batch.plan limits).writes, w.2.Admissible := fun _ => Batch.admissible_writes
  obtain ⟨xs, failure, ran, ends, deeds⟩ := exists_ran_writeInTurn limits.delayMs _ admissible false c
  rw [← Batch.requestsIfConfirmed_eq] at ran
  rw [← Pacing.spaced_eq_trail] at deeds
  dsimp only
  rw [perform_writeBatch_of_writes batch limits _ _ (Prod.ext ends rfl), Batch.failure_plan]
  refine ⟨xs, deeds, ?_, ran.requests_prefix, ran.confirmed_of_mem_dropLast, ?_⟩
  · rw [pauses, deeds, List.filterMap_append,
      Pacing.filterMap_spaced_pauses rfl (List.forall_mem_map.mpr fun _ _ => rfl), List.length_map]
    rfl
  · cases failure with
    | some e =>
      obtain ⟨x, last, fails⟩ := ran.getLast?_of_failure rfl
      exact .inl ⟨x, e, last, fails, rfl⟩
    | none =>
      obtain ⟨all, same⟩ := ran.all_of_no_failure rfl
      exact .inr ⟨all, same, rfl⟩

end Client

end Modbus
