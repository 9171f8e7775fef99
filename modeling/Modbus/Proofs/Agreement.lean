import Modbus.Client.Batch
import Modbus.Proofs.Carriage
import Modbus.Proofs.ChunkedRead

/-! Two clients whose links carry requests to equal devices cannot be told apart: every operation, and so every
run of operations, has the same outcomes for both and leaves equal devices. -/
namespace Modbus

variable {σ τ α β : Type} [Link σ] [Link τ]

/-- Two clients over links that carry, with equal devices at the same time, and with equal histories. -/
structure Client.Alike (k : Carrier σ) (k' : Carrier τ) (c : Client σ) (d : Client τ) : Prop where
  sound : k.sound c.link
  sound' : k'.sound d.link
  scene : k.scene c.link = k'.scene d.link
  logger : c.logger = d.logger
  realPauses : c.realPauses = d.realPauses
  events : c.events = d.events

/-- From alike clients, two operations have one outcome and leave alike clients. -/
def Client.Agree (k : Carrier σ) (k' : Carrier τ) (a : Action σ α) (b : Action τ α) : Prop :=
  ∀ c d, Alike k k' c d → (c.perform a).1 = (d.perform b).1 ∧ Alike k k' (c.perform a).2 (d.perform b).2

namespace Client

variable {k : Carrier σ} {k' : Carrier τ} {c : Client σ} {d : Client τ}

theorem Alike.recorded (alike : Alike k k' c d) (entry : LogEntry) :
    Alike k k' (c.recorded entry) (d.recorded entry) := by
  refine ⟨alike.sound, alike.sound', alike.scene, alike.logger, alike.realPauses, ?_⟩
  simp only [Client.recorded, alike.logger, alike.events]

theorem Alike.pause (alike : Alike k k' c d) (ms : Nat) : Alike k k' (c.pause ms) (d.pause ms) := by
  have events := congrArg (Event.paused ms :: ·) alike.events
  have real := alike.realPauses
  unfold Client.pause
  cases clock : c.realPauses with
  | false =>
    rw [← real, clock]
    exact ⟨alike.sound, alike.sound', alike.scene, alike.logger, rfl, events⟩
  | true =>
    rw [← real, clock]
    obtain ⟨scene, sound⟩ := k.elapse ms alike.sound
    obtain ⟨scene', sound'⟩ := k'.elapse ms alike.sound'
    have same : k.scene (Link.elapse c.link ms) = k'.scene (Link.elapse d.link ms) := by
      rw [scene, scene', alike.scene]
    exact ⟨sound, sound', same, alike.logger, rfl, events⟩

theorem Alike.rested (alike : Alike k k' c d) (delay : Nat) (first : Bool) :
    Alike k k' (Bank.rested c delay first) (Bank.rested d delay first) := by
  unfold Bank.rested
  split
  · exact alike
  · exact alike.pause delay

theorem Agree.cases {a : Action σ α} {b : Action τ α} (agree : Agree k k' a b) (alike : Alike k k' c d) :
    ∃ outcome c' d', c.perform a = (outcome, c') ∧ d.perform b = (outcome, d') ∧ Alike k k' c' d' := by
  obtain ⟨same, after⟩ := agree c d alike
  exact ⟨_, _, _, rfl, Prod.ext same.symm rfl, after⟩

namespace Agree

theorem pure (x : α) : Agree k k' (pure x) (pure x) := by
  intro c d alike
  exact ⟨rfl, alike⟩

theorem throw (e : Error) : Agree k k' (throw e : Action σ α) (throw e) := by
  intro c d alike
  exact ⟨rfl, alike⟩

theorem settled (outcome : Except Error α) : Agree k k' (Client.settled outcome) (Client.settled outcome) := by
  intro c d alike
  exact ⟨rfl, alike⟩

theorem guard {p : Prop} [Decidable p] (e : Error) {a : Action σ α} {b : Action τ α} (agree : Agree k k' a b) :
    Agree k k' (if p then MonadExcept.throw e else a) (if p then MonadExcept.throw e else b) := by
  split
  · exact throw e
  · exact agree

theorem bind {a : Action σ α} {b : Action τ α} {f : α → Action σ β} {g : α → Action τ β} (first : Agree k k' a b)
    (rest : ∀ x, Agree k k' (f x) (g x)) : Agree k k' (a >>= f) (b >>= g) := by
  intro c d alike
  obtain ⟨outcome, c', d', left, right, alike⟩ := first.cases alike
  cases outcome with
  | error e =>
    rw [perform_bind_error left, perform_bind_error right]
    exact ⟨rfl, alike⟩
  | ok x =>
    rw [perform_bind_ok left, perform_bind_ok right]
    exact rest x c' d' alike

end Agree

theorem agree_execute {r : Request} (allowed : k.allowed r) (allowed' : k'.allowed r) :
    Agree k k' (execute r) (execute r) := by
  intro c d alike
  obtain ⟨outcome, scene, sound⟩ := k.send alike.sound allowed
  obtain ⟨outcome', scene', sound'⟩ := k'.send alike.sound' allowed'
  have same : (Link.send c.link r).1 = (Link.send d.link r).1 := by rw [outcome, outcome', alike.scene]
  have view : k.scene (Link.send c.link r).2 = k'.scene (Link.send d.link r).2 := by
    rw [scene, scene', alike.scene]
  rw [perform_execute, perform_execute]
  refine ⟨same, sound, sound', view, alike.logger, alike.realPauses, ?_⟩
  simp only [exchanged, handed, Client.recorded, same, alike.logger, alike.events]

theorem agree_judge (r : Request) (verdict : Except Error α) : Agree k k' (judge r verdict) (judge r verdict) := by
  intro c d alike
  rw [perform_judge, perform_judge]
  cases verdict with
  | error e => exact ⟨rfl, alike.recorded _⟩
  | ok x => exact ⟨rfl, alike⟩

end Client

def Carrier.Serve (k : Carrier σ) (k' : Carrier τ) (slave : UInt8) : Prop :=
  ∀ r : Request, r.slave = slave → k.allowed r ∧ k'.allowed r

namespace Client

variable {k : Carrier σ} {k' : Carrier τ} {slave : UInt8}

theorem agree_ask {r : Request} (serve : k.Serve k' r.slave) (verdict : Pdu → Except Error α) :
    Agree k k' (ask r verdict) (ask r verdict) :=
  (agree_execute (serve r rfl).1 (serve r rfl).2).bind fun response => agree_judge r (verdict response)

theorem agree_read (serve : k.Serve k' slave) (maximum : UInt16)
    (parse : Pdu → UInt8 → UInt16 → Except Error (List α)) (function : UInt8) (address quantity : UInt16) :
    Agree k k' (read maximum parse slave function address quantity) (read maximum parse slave function address quantity) :=
  (Agree.settled _).bind fun _ => agree_ask serve _

theorem agree_write {r : Request} (serve : k.Serve k' r.slave) : Agree k k' (write r) (write r) := agree_ask serve _

theorem agree_bank (serve : k.Serve k' slave) (bank : Bank) (address quantity : UInt16) :
    Agree k k' (bank.read slave address quantity) (bank.read slave address quantity) := by
  rw [bank.read_eq, bank.read_eq]
  exact agree_read serve _ _ _ _ _

theorem agree_assignment (serve : k.Serve k' slave) (s : Assignment) : Agree k k' (s.write slave) (s.write slave) := by
  cases s with
  | coil address value => exact agree_write serve
  | register address value => exact agree_write serve
  | coils address values => exact .guard _ (agree_write serve)
  | registers address values => exact .guard _ (agree_write serve)

theorem agree_readChunked (serve : k.Serve k' slave) (bank : Bank) (address quantity : UInt16) (limits : Limits)
    (stopped : Scene → Bool) :
    Agree k k' (bank.readChunked slave address quantity limits fun l => stopped (k.scene l))
      (bank.readChunked slave address quantity limits fun l => stopped (k'.scene l)) := by
  intro c d alike
  rw [bank.perform_readChunked, bank.perform_readChunked]
  unfold Chunk.read
  cases Chunk.plan address quantity (bank.ceiling limits) with
  | error e => exact ⟨rfl, alike⟩
  | ok spans =>
    dsimp only
    generalize [] = chunks
    induction spans generalizing c d chunks with
    | nil => exact ⟨rfl, alike⟩
    | cons span spans ih =>
      have rest := alike.rested limits.delayMs chunks.isEmpty
      rw [bank.readSpans_cons, bank.readSpans_cons, rest.scene]
      split
      · exact ⟨rfl, rest⟩
      · obtain ⟨outcome, c', d', left, right, alike⟩ :=
          (agree_bank serve bank span.start span.count).cases rest
        rw [left, right]
        cases outcome with
        | error e => exact ⟨rfl, alike⟩
        | ok values => exact ih c' d' alike (values :: chunks)

end Client

end Modbus
