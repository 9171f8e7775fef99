import Modbus.Proofs.Command
import Modbus.Proofs.Direct

/-! What a batch is going to write is known before its first request: the writes in turn, and the error that it finds
by itself behind the last of them. To carry out a batch is to follow this plan, whatever the link, so the requests that
a batch hands over are the first ones of its plan. -/
namespace Modbus

/-- How many registers a request of a run may write. -/
def Limits.writeCeiling (limits : Limits) : Nat :=
  min limits.maxWriteRegisters.toNat Protocol.maxWriteRegisters.toNat

namespace Assignment

/-- Registers at one address: a single write if there is one. -/
def ofWords (address : UInt16) : List UInt16 → Assignment
  | [value] => .register address value
  | values => .registers address values

/-- Registers from an address on, at most `ceiling` in each write. -/
def pieces (ceiling address : Nat) (words : List UInt16) : List Assignment :=
  if 0 < ceiling ∧ 0 < words.length then
    .registers (.ofNat address) (words.take ceiling) :: pieces ceiling (address + ceiling) (words.drop ceiling)
  else []
  termination_by words.length
  decreasing_by simp only [List.length_drop]; omega

end Assignment

namespace Batch

/-- Writes in turn, each with its slave, and what is found wrong behind the last of them. -/
structure Plan where
  writes : List (UInt8 × Assignment) := []
  failure : Option Error := none

namespace Plan

def ofWrites (slave : UInt8) (writes : List Assignment) : Plan := { writes := writes.map fun s => (slave, s) }

def ofFailure (e : Error) : Plan := { failure := some e }

/-- Nothing comes behind a failure. -/
def append (p q : Plan) : Plan :=
  match p.failure with
  | none => ⟨p.writes ++ q.writes, q.failure⟩
  | some _ => p

def coils (slave : UInt8) (commands : List Command) : Plan :=
  ofWrites slave (commands.map fun c => .coil c.address !c.value.isZero)

def each (slave : UInt8) : List Command → Plan
  | [] => {}
  | c :: rest =>
    match c.encode with
    | .error e => ofFailure e
    | .ok words => append (ofWrites slave [.ofWords c.address words]) (each slave rest)

def coalesced (limits : Limits) (slave : UInt8) (commands : List Command) : Plan :=
  let sorted := byAddress commands
  match Client.encodeAll sorted with
  | .error e => ofFailure e
  | .ok words =>
    let start := sorted.head?.elim 0 fun c => c.address.toNat
    if Protocol.addressSpaceSize < start + words.length then ofFailure (.coalescedPastEnd words.length start)
    else if limits.writeCeiling = 0 then ofFailure .writeLimitZero
    else ofWrites slave (Assignment.pieces limits.writeCeiling start words)

def registers (limits : Limits) (slave : UInt8) (commands : List Command) : Plan :=
  if Client.coalescable commands then coalesced limits slave commands else each slave commands

def group (limits : Limits) (key : Key) (commands : List Command) : Plan :=
  match FunctionCode.ofByte? key.function with
  | some .writeSingleCoil | some .writeMultipleCoils => coils key.slave commands
  | some .writeSingleRegister | some .writeMultipleRegisters => registers limits key.slave commands
  | _ => ofFailure (.notBatchableWrite key.function)

theorem group_eq_registers (limits : Limits) {key : Key} (register : key.function = 0x06 ∨ key.function = 0x10)
    (commands : List Command) : group limits key commands = registers limits key.slave commands := by
  unfold group
  rcases register with single | multiple
  · rw [single]
    rfl
  · rw [multiple]
    rfl

def ofGroups (limits : Limits) : List (Key × Array Command) → Plan
  | [] => {}
  | (key, commands) :: rest => append (group limits key commands.toList) (ofGroups limits rest)

end Plan

def plan (batch : Batch) (limits : Limits) : Plan := Plan.ofGroups limits batch.groups

end Batch

namespace Client

open Batch (Plan)

variable {σ : Type} [Link σ]

def writeInTurn (delay : Nat) : List (UInt8 × Assignment) → Bool → Action σ Bool
  | [], issued => return issued
  | (slave, s) :: rest, issued => do
    pace delay issued
    s.write slave
    writeInTurn delay rest true

/-- Whether a write was issued is passed on, since the next one pauses first if so. -/
def follow (delay : Nat) (plan : Plan) (issued : Bool) : Action σ Bool := do
  let issued ← writeInTurn delay plan.writes issued
  match plan.failure with
  | none => return issued
  | some e => throw e

section Follow

variable (delay : Nat) (slave : UInt8) (issued : Bool)

omit [Link σ] in
theorem throw_bind {α β : Type} (e : Error) (f : α → Action σ β) : (throw e >>= f) = throw e := rfl

theorem writeInTurn_append (writes more : List (UInt8 × Assignment)) :
    (writeInTurn delay (writes ++ more) issued : Action σ Bool) =
      writeInTurn delay writes issued >>= writeInTurn delay more := by
  induction writes generalizing issued with
  | nil => exact (pure_bind issued (writeInTurn delay more)).symm
  | cons w rest ih => simp only [List.cons_append, writeInTurn, ih, bind_assoc]

theorem follow_append (p q : Plan) :
    (follow delay (p.append q) issued : Action σ Bool) = follow delay p issued >>= follow delay q := by
  obtain ⟨writes, failure⟩ := p
  cases failure with
  | none => simp only [follow, Plan.append, writeInTurn_append, bind_assoc, pure_bind]
  | some e => simp only [follow, Plan.append, bind_assoc, throw_bind]

theorem follow_writes (writes : List Assignment) :
    (follow delay (.ofWrites slave writes) issued : Action σ Bool) =
      writeInTurn delay (writes.map fun s => (slave, s)) issued := bind_pure _

theorem writeWords_eq (address : UInt16) (words : List UInt16) :
    (writeWords slave address words : Action σ Unit) = (Assignment.ofWords address words).write slave := by
  match words with
  | [] | [_] | _ :: _ :: _ => rfl

theorem writeCoilGroup_eq_follow (commands : List Command) :
    (writeCoilGroup delay slave commands issued : Action σ Bool) = follow delay (.coils slave commands) issued := by
  rw [Plan.coils, follow_writes]
  induction commands generalizing issued with
  | nil => rfl
  | cons c rest ih => simp only [writeCoilGroup, ih, List.map_cons, writeInTurn, Assignment.write]

theorem writeEach_eq_follow (commands : List Command) :
    (writeEach delay slave commands issued : Action σ Bool) = follow delay (.each slave commands) issued := by
  induction commands generalizing issued with
  | nil => rfl
  | cons c rest ih =>
    rw [writeEach, Plan.each]
    cases c.encode with
    | error e => rfl
    | ok words =>
      rw [settled_ok_bind]
      dsimp only
      rw [follow_append, follow_writes]
      simp only [ih, List.map_cons, List.map_nil, writeInTurn, writeWords_eq, bind_assoc, pure_bind]

theorem writeRun_eq_writeInTurn (ceiling address : Nat) (words : List UInt16) :
    (writeRun delay ceiling slave address words issued : Action σ Bool) =
      writeInTurn delay ((Assignment.pieces ceiling address words).map fun s => (slave, s)) issued := by
  induction size : words.length using Nat.strongRecOn generalizing address words issued with
  | ind remaining ih =>
    subst size
    rw [writeRun, Assignment.pieces]
    split
    case isTrue more =>
      have shorter : (words.drop ceiling).length < words.length := by
        rw [List.length_drop]
        omega
      rw [ih _ shorter _ _ _ rfl]
      rfl
    case isFalse => rfl

theorem writeCoalesced_eq_follow (limits : Limits) (commands : List Command) :
    (writeCoalesced limits slave commands issued : Action σ Bool) =
      follow limits.delayMs (.coalesced limits slave commands) issued := by
  rw [writeCoalesced_eq, Plan.coalesced]
  cases encodeAll (Batch.byAddress commands) with
  | error e => rfl
  | ok words =>
    rw [settled_ok_bind, Limits.writeCeiling]
    dsimp only
    split
    · rfl
    · split
      · rfl
      · rw [follow_writes]
        exact writeRun_eq_writeInTurn ..

theorem writeGroup_eq_follow (limits : Limits) (key : Batch.Key) (commands : List Command) :
    (writeGroup limits key commands issued : Action σ Bool) =
      follow limits.delayMs (.group limits key commands) issued := by
  have registers : (writeRegisterGroup limits key.slave commands issued : Action σ Bool) =
      follow limits.delayMs (.registers limits key.slave commands) issued := by
    unfold writeRegisterGroup Plan.registers
    split
    · exact writeCoalesced_eq_follow key.slave issued limits commands
    · exact writeEach_eq_follow limits.delayMs key.slave issued commands
  unfold writeGroup Plan.group
  cases FunctionCode.ofByte? key.function with
  | none => rfl
  | some f =>
    cases f with
    | writeSingleCoil | writeMultipleCoils => exact writeCoilGroup_eq_follow limits.delayMs key.slave issued commands
    | writeSingleRegister | writeMultipleRegisters => exact registers
    | _ => rfl

theorem writeGroups_eq_follow (limits : Limits) (groups : List (Batch.Key × Array Command)) :
    (writeGroups limits groups issued : Action σ Unit) =
      follow limits.delayMs (.ofGroups limits groups) issued >>= fun _ => pure () := by
  induction groups generalizing issued with
  | nil => rfl
  | cons group rest ih =>
    rw [writeGroups, Plan.ofGroups, writeGroup_eq_follow, follow_append, bind_assoc]
    simp only [ih]

end Follow

theorem writeBatch_eq_follow (batch : Batch) (limits : Limits) :
    (writeBatch batch limits : Action σ Unit) =
      follow limits.delayMs (batch.plan limits) false >>= fun _ => pure () :=
  writeGroups_eq_follow false limits batch.groups

/-- After the pause before a write, if there is one. -/
def paced (delay : Nat) (issued : Bool) (c : Client σ) : Client σ :=
  if issued && delay != 0 then c.pause delay else c

theorem perform_pace (delay : Nat) (issued : Bool) (c : Client σ) :
    c.perform (pace delay issued) = (.ok (), c.paced delay issued) := by
  unfold pace paced
  cases issued && delay != 0 <;> rfl

@[simp] theorem sent_paced (delay : Nat) (issued : Bool) (c : Client σ) : (c.paced delay issued).sent = c.sent := by
  unfold paced
  split
  · exact c.sent_pause delay
  · rfl

/-- Over any link, writes in turn hand over the requests of the first few of them, and of all if they succeed. -/
theorem exists_sent_writeInTurn (delay : Nat) (writes : List (UInt8 × Assignment))
    (admissible : ∀ w ∈ writes, w.2.Admissible) (issued : Bool) (c : Client σ) :
    let done := c.perform (writeInTurn delay writes issued)
    ∃ k ≤ writes.length, done.2.sent = c.sent ++ (writes.take k).map (fun w => w.2.request w.1) ∧
      ∀ x, done.1 = .ok x → k = writes.length := by
  induction writes generalizing issued c with
  | nil => exact ⟨0, Nat.le_refl 0, (List.append_nil _).symm, fun _ _ => rfl⟩
  | cons w rest ih =>
    obtain ⟨slave, s⟩ := w
    obtain ⟨here, admissible⟩ := List.forall_mem_cons.mp admissible
    obtain ⟨-, -, sent⟩ := perform_ask (c.paced delay issued) (s.request slave) fun response =>
      Response.checkEcho response (s.request slave).function (s.request slave).address (s.request slave).echoedWord
    rw [← write_eq_ask, ← s.write_eq slave here, sent_paced] at sent
    dsimp only
    rw [writeInTurn, perform_bind_ok (perform_pace delay issued c)]
    rcases done : (c.paced delay issued).perform (s.write slave) with ⟨_ | _, c'⟩ <;> rw [done] at sent
    · rw [perform_bind_error done]
      exact ⟨1, by simp, sent, fun _ ok => nomatch ok⟩
    · rw [perform_bind_ok done]
      obtain ⟨k, few, later, whole⟩ := ih admissible true c'
      refine ⟨k + 1, Nat.succ_le_succ few, ?_, fun x ok => congrArg (· + 1) (whole x ok)⟩
      rw [later, sent, List.take_succ_cons, List.map_cons, List.append_assoc, List.singleton_append]

/-- A batch ends with the failure of its writes, or else with that of its plan. -/
theorem perform_writeBatch_of_writes (batch : Batch) (limits : Limits) {c c' : Client σ} (failure : Option Error)
    (issued : Bool)
    (written : c.perform (writeInTurn limits.delayMs (batch.plan limits).writes false) =
      (failure.elim (.ok issued) .error, c')) :
    c.perform (writeBatch batch limits) = ((failure.or (batch.plan limits).failure).elim (.ok ()) .error, c') := by
  rw [writeBatch_eq_follow, follow, bind_assoc]
  cases failure with
  | some e => exact perform_bind_error written _
  | none =>
    rw [perform_bind_ok written]
    cases (batch.plan limits).failure <;> rfl

/-- A batch leaves the client that its planned writes leave, and succeeds exactly if they do and none is missing. -/
theorem perform_writeBatch (batch : Batch) (limits : Limits) (c : Client σ) :
    let written := c.perform (writeInTurn limits.delayMs (batch.plan limits).writes false)
    (c.perform (writeBatch batch limits)).2 = written.2 ∧
      ((c.perform (writeBatch batch limits)).1 = .ok () ↔
        (batch.plan limits).failure = none ∧ ∃ issued, written.1 = .ok issued) := by
  dsimp only
  rcases written : c.perform (writeInTurn limits.delayMs (batch.plan limits).writes false) with ⟨e | x, c'⟩
  · rw [perform_writeBatch_of_writes batch limits (some e) false written]
    exact ⟨rfl, nofun, nofun⟩
  · rw [perform_writeBatch_of_writes batch limits none x written]
    cases (batch.plan limits).failure with
    | none => exact ⟨rfl, fun _ => ⟨rfl, x, rfl⟩, fun _ => rfl⟩
    | some e => exact ⟨rfl, nofun, nofun⟩

end Client

end Modbus
