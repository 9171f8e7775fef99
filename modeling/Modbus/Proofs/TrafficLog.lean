import Modbus.Proofs.History

/-! What a client writes down about its traffic. Each request has a block of lines of its own, and a run of operations
writes the blocks of its requests one behind the other. A logger decides which of these lines come through; it has no
say in what is asked, what comes of it and when. -/
namespace Modbus

theorem Logger.flatMap_pass (l : Logger) (entries : List LogEntry) :
    entries.flatMap l.pass = entries.filter fun entry => l.isEnabled entry.level := by
  induction entries with
  | nil => rfl
  | cons entry rest ih =>
    rw [List.flatMap_cons, List.filter_cons, pass, ih]
    split <;> rfl

namespace Client

section Lines

variable (heard : Request → Pdu → Except Error Unit)

/-- The block of a request: first the request itself. -/
def Exchange.lines (x : Exchange) : List LogEntry := .ofRequest x.request :: x.answerLines heard

namespace Deed

def exchange? : Deed → Option Exchange
  | asked x => some x
  | paused _ => none

def lines : Deed → List LogEntry
  | asked x => x.lines heard
  | paused _ => []

theorem flatMap_lines (deeds : List Deed) :
    deeds.flatMap (lines heard) = (deeds.filterMap exchange?).flatMap (Exchange.lines heard) := by
  induction deeds with
  | nil => rfl
  | cons d rest ih =>
    cases d with
    | asked x => exact congrArg (x.lines heard ++ ·) ih
    | paused ms => exact ih

end Deed

end Lines

variable {σ : Type} {heard : Request → Pdu → Except Error Unit}

/-- The line of an event, if it is one. -/
def Event.entry? : Event → Option LogEntry
  | logged entry => some entry
  | exchanged .. | paused _ => none

/-- The lines that came through, the oldest first. -/
def log (c : Client σ) : List LogEntry := c.events.reverse.filterMap Event.entry?

/-- The requests with what came of them, the oldest first, as they are noted (`Operation.follows_runAll`). -/
def exchanges (c : Client σ) : List Exchange :=
  c.deeds.filterMap fun
    | .exchanged r outcome => some ⟨r, outcome⟩
    | .logged _ | .paused _ => none

theorem filterMap_entry?_map_logged (entries : List LogEntry) :
    (entries.map .logged).filterMap Event.entry? = entries := by
  rw [List.filterMap_map]
  exact List.filterMap_some

theorem log_having (c : Client σ) (link : σ) (done : List Deed) :
    (c.having heard link done).log =
      c.log ++ ((done.filterMap Deed.exchange?).flatMap (Exchange.lines heard)).filter fun entry =>
        c.logger.isEnabled entry.level := by
  have each (d : Deed) : (d.notes heard c.logger).filterMap Event.entry? =
      (d.lines heard).filter fun entry => c.logger.isEnabled entry.level := by
    cases d with
    | paused ms => rfl
    | asked x =>
      rw [Deed.lines, ← Logger.flatMap_pass, Exchange.lines, List.flatMap_cons, Deed.notes, List.filterMap_append,
        filterMap_entry?_map_logged]
      exact congrArg _ (filterMap_entry?_map_logged _)
  rw [log, reverse_events_having, List.filterMap_append, List.filterMap_flatMap, ← Deed.flatMap_lines,
    List.filter_flatMap, log]
  simp only [each]

theorem deeds_having (c : Client σ) (link : σ) (done : List Deed) :
    (c.having heard link done).deeds = c.deeds ++ done.map Deed.event := by
  have each (d : Deed) : ((d.notes heard c.logger).filter fun
      | .logged _ => false
      | .exchanged .. | .paused _ => true) = [d.event] := by
    cases d with
    | paused ms => rfl
    | asked x => simp [Deed.notes, Deed.event, Exchange.event, List.filter_map, Function.comp_def]
  rw [deeds, reverse_events_having, List.filter_append, List.filter_flatMap, deeds, List.map_eq_flatMap]
  exact congrArg _ (List.flatMap_congr fun d _ => each d)

theorem exchanges_having (c : Client σ) (link : σ) (done : List Deed) :
    (c.having heard link done).exchanges = c.exchanges ++ done.filterMap Deed.exchange? := by
  rw [exchanges, deeds_having, List.filterMap_append, List.filterMap_map]
  refine congrArg _ (List.filterMap_congr fun d _ => ?_)
  cases d <;> rfl

end Client

namespace Operation

open Client (Exchange)

variable {σ : Type} [Link σ] (scene : σ → Scene)

/-- Each operation of a run with its requests and what came of them. -/
def talks : List Operation → Client σ → List (Operation × List Exchange)
  | [], _ => []
  | operation :: rest, c =>
    let (_, after) := c.perform (operation.run scene)
    (operation, after.exchanges.drop c.exchanges.length) :: talks rest after

/-- The blocks of all requests of a run, each with what its operation found wrong. -/
def lines (talks : List (Operation × List Exchange)) : List LogEntry :=
  talks.flatMap fun talk => talk.2.flatMap (Exchange.lines talk.1.heard)

theorem map_fst_talks (operations : List Operation) (c : Client σ) :
    (talks scene operations c).map Prod.fst = operations := by
  induction operations generalizing c with
  | nil => rfl
  | cons operation rest ih => exact congrArg (operation :: ·) (ih _)

/-- Two clients that differ only in their loggers and in what these let through do the same from then on, and each logs
the blocks of its requests. -/
theorem runAll_twin (operations : List Operation) {c d : Client σ} (link : d.link = c.link)
    (realPauses : d.realPauses = c.realPauses) (deeds : d.deeds = c.deeds) :
    let done := runAll scene operations c
    let other := runAll scene operations d
    other.1 = done.1 ∧ other.2.link = done.2.link ∧ other.2.deeds = done.2.deeds ∧
      done.2.exchanges = c.exchanges ++ (talks scene operations c).flatMap Prod.snd ∧
      other.2.log = d.log ++ (lines (talks scene operations c)).filter fun entry => d.logger.isEnabled entry.level := by
  induction operations generalizing c d with
  | nil =>
    refine ⟨rfl, link, deeds, (List.append_nil _).symm, ?_⟩
    exact (List.append_nil _).symm
  | cons operation rest ih =>
    obtain ⟨outcome, link', acts, -, run⟩ := operation.traced_run scene c.link c.realPauses
    have here := run c rfl rfl
    have there := run d link realPauses
    have exchanges : (c.having operation.heard link' acts).exchanges = _ := c.exchanges_having link' acts
    obtain ⟨outcomes, links, later, asked, logged⟩ := ih (c := c.having operation.heard link' acts)
      (d := d.having operation.heard link' acts) rfl realPauses (by rw [Client.deeds_having, Client.deeds_having, deeds])
    simp only [runAll, talks, here, there, lines]
    refine ⟨?_, links, later, ?_, ?_⟩
    · rw [outcomes]
    · rw [asked, exchanges, List.drop_left, List.flatMap_cons, List.append_assoc]
    · rw [logged, Client.log_having, exchanges, List.drop_left, List.flatMap_cons, List.filter_append,
        List.append_assoc]
      rfl

/-- Over any link, whatever it does, a run of operations with a logger that lets everything through logs one block for
each of its requests, in their order, and nothing else. A block has the line of the request, and then either the error of
the link or the response, followed by a failure exactly if the operation rejects it. Any other logger, or none, changes
nothing but the log: of all these lines it keeps those at or above its threshold. The exchanges noted are those of the
link, by `Operation.follows_runAll`. -/
theorem log_runAll (operations : List Operation) (c : Client σ) :
    let done := runAll scene operations c
    let talks := talks scene operations c
    talks.map Prod.fst = operations ∧ done.2.exchanges = c.exchanges ++ talks.flatMap Prod.snd ∧
      (runAll scene operations { c with logger := ⟨some .debug⟩ }).2.log = c.log ++ lines talks ∧
      ∀ logger : Logger,
        let other := runAll scene operations { c with logger }
        other.1 = done.1 ∧ other.2.deeds = done.2.deeds ∧ other.2.link = done.2.link ∧
          other.2.log = c.log ++ match logger.threshold with
            | none => []
            | some least => (lines talks).filter fun entry => least.rank ≤ entry.level.rank := by
  intro done talks
  have twin (logger : Logger) := runAll_twin scene operations (c := c) (d := { c with logger }) rfl rfl rfl
  obtain ⟨-, -, -, asked, -⟩ := twin c.logger
  refine ⟨map_fst_talks scene operations c, asked, ?_, ?_⟩
  · obtain ⟨-, -, -, -, logged⟩ := twin ⟨some .debug⟩
    have all : ∀ entry ∈ lines talks, Logger.isEnabled ⟨some .debug⟩ entry.level = true := fun entry _ =>
      decide_eq_true (Nat.zero_le entry.level.rank)
    exact logged.trans (congrArg (c.log ++ ·) (List.filter_eq_self.mpr all))
  · intro logger
    obtain ⟨outcomes, link, deeds, -, logged⟩ := twin logger
    refine ⟨outcomes, deeds, link, logged.trans (congrArg (c.log ++ ·) ?_)⟩
    obtain ⟨_ | least⟩ := logger
    · exact List.filter_eq_nil_iff.mpr fun _ _ => Bool.false_ne_true
    · rfl

/-- A register that the device does not have: the read rejects the answer, the raw request takes it. -/
example :
    (runAll DirectLink.scene [.read .holdingRegisters 1 0 1, .execute ⟨1, 0x03, 0, 1, []⟩]
      { link := { device := {} }, logger := ⟨some .debug⟩ }).2.log.map LogEntry.level =
    [.debug, .debug, .error, .debug, .debug] := by
  decide +kernel

end Operation

end Modbus
