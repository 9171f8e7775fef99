import Modbus.Proofs.Agreement

/-! Runs of operations over framed links. Headers, checksums and the time limit leave no trace in what a client
learns or in what a device is asked. -/
namespace Modbus

namespace Client

variable {σ τ : Type} [Link σ] [Link τ] {k : Carrier σ} {k' : Carrier τ} {slave : UInt8}

theorem agree_readValue (serve : k.Serve k' slave) (function : UInt8) (address : UInt16) (tag : String) (bit : UInt8)
    (order : ByteOrder) :
    Agree k k' (readValue slave function address tag bit order) (readValue slave function address tag bit order) := by
  unfold readValue
  split
  · exact .throw _
  · split
    · exact (agree_read serve _ _ _ _ _).bind fun _ => .pure _
    · split
      · exact .throw _
      · exact (agree_read serve _ _ _ _ _).bind fun _ => .settled _

theorem agree_writeWords (serve : k.Serve k' slave) (address : UInt16) (words : List UInt16) :
    Agree k k' (writeWords slave address words) (writeWords slave address words) := by
  unfold writeWords
  split
  · exact agree_assignment serve (.register address _)
  · exact agree_assignment serve (.registers address _)

theorem agree_pace (delay : Nat) (issued : Bool) : Agree k k' (pace delay issued) (pace delay issued) := by
  unfold pace
  split
  · intro c d alike
    exact ⟨rfl, alike.pause delay⟩
  · intro c d alike
    exact ⟨rfl, alike⟩

theorem agree_writeCoilGroup (serve : k.Serve k' slave) (delay : Nat) (commands : List Command) (issued : Bool) :
    Agree k k' (writeCoilGroup delay slave commands issued) (writeCoilGroup delay slave commands issued) := by
  induction commands generalizing issued with
  | nil => exact .pure _
  | cons c rest ih =>
    exact (agree_pace delay issued).bind fun _ =>
      (agree_assignment serve (.coil c.address !c.value.isZero)).bind fun _ => ih true

theorem agree_writeEach (serve : k.Serve k' slave) (delay : Nat) (commands : List Command) (issued : Bool) :
    Agree k k' (writeEach delay slave commands issued) (writeEach delay slave commands issued) := by
  induction commands generalizing issued with
  | nil => exact .pure _
  | cons c rest ih =>
    exact (Agree.settled c.encode).bind fun words => (agree_pace delay issued).bind fun _ =>
      (agree_writeWords serve c.address words).bind fun _ => ih true

theorem agree_writeRun (serve : k.Serve k' slave) (delay ceiling address : Nat) (words : List UInt16) (issued : Bool) :
    Agree k k' (writeRun delay ceiling slave address words issued)
      (writeRun delay ceiling slave address words issued) := by
  induction size : words.length using Nat.strongRecOn generalizing address words issued with
  | ind remaining ih =>
    subst size
    unfold writeRun
    split
    case isTrue more =>
      have less : (words.drop ceiling).length < words.length := by
        rw [List.length_drop]
        omega
      exact (agree_pace delay issued).bind fun _ =>
        (agree_assignment serve (.registers (.ofNat address) (words.take ceiling))).bind fun _ => ih _ less _ _ _ rfl
    case isFalse => exact .pure _

theorem agree_writeRegisterGroup (serve : k.Serve k' slave) (limits : Limits) (commands : List Command)
    (issued : Bool) :
    Agree k k' (writeRegisterGroup limits slave commands issued)
      (writeRegisterGroup limits slave commands issued) := by
  unfold writeRegisterGroup
  split
  · rw [writeCoalesced_eq, writeCoalesced_eq]
    refine (Agree.settled _).bind ?_
    intro words
    dsimp only
    split
    · exact .throw _
    · split
      · exact .throw _
      · exact agree_writeRun serve _ _ _ _ _
  · exact agree_writeEach serve _ _ _

theorem agree_writeGroup {key : Batch.Key} (serve : k.Serve k' key.slave) (limits : Limits) (commands : List Command)
    (issued : Bool) :
    Agree k k' (writeGroup limits key commands issued) (writeGroup limits key commands issued) := by
  unfold writeGroup
  split
  · exact agree_writeCoilGroup serve _ _ _
  · exact agree_writeCoilGroup serve _ _ _
  · exact agree_writeRegisterGroup serve _ _ _
  · exact agree_writeRegisterGroup serve _ _ _
  · exact .throw _

theorem agree_writeGroups (limits : Limits) {groups : List (Batch.Key × Array Command)}
    (serve : ∀ group ∈ groups, k.Serve k' group.1.slave) (issued : Bool) :
    Agree k k' (writeGroups limits groups issued) (writeGroups limits groups issued) := by
  induction groups generalizing issued with
  | nil => exact .pure _
  | cons group rest ih =>
    obtain ⟨here, serve⟩ := List.forall_mem_cons.mp serve
    exact (agree_writeGroup here limits group.2.toList issued).bind fun issued => ih serve issued

end Client

/-- What a client can be asked to do. Whether somebody stops a chunked read is decided by what can be seen of the
device. -/
inductive Operation where
  | read (bank : Bank) (slave : UInt8) (address quantity : UInt16)
  | readChunked (bank : Bank) (slave : UInt8) (address quantity : UInt16) (limits : Limits) (stopped : Scene → Bool)
  | write (assignment : Assignment) (slave : UInt8)
  | readValue (slave function : UInt8) (address : UInt16) (tag : String) (bit : UInt8) (order : ByteOrder)
  | writeValue (slave : UInt8) (address : UInt16) (value : Value) (order : ByteOrder)
  | writeBatch (batch : Batch) (limits : Limits)
  | execute (request : Request)

inductive Report where
  | cells (bank : Bank) (values : List bank.Cell)
  | value (value : Value)
  | message (response : Pdu)
  | done

namespace Operation

/-- No request of the operation goes to all slaves. -/
def Unicast : Operation → Prop
  | read _ slave .. | readChunked _ slave .. | write _ slave | readValue slave .. | writeValue slave .. => slave ≠ 0
  | writeBatch batch _ => ∀ group ∈ batch.groups, group.1.slave ≠ 0
  | execute r => r.slave ≠ 0

variable {σ τ : Type} [Link σ] [Link τ]

def run (scene : σ → Scene) : Operation → Client.Action σ Report
  | read bank slave address quantity => return .cells bank (← bank.read slave address quantity)
  | readChunked bank slave address quantity limits stopped =>
    return .cells bank (← bank.readChunked slave address quantity limits fun l => stopped (scene l))
  | write assignment slave => do
    assignment.write slave
    return .done
  | readValue slave function address tag bit order =>
    return .value (← Client.readValue slave function address tag bit order)
  | writeValue slave address value order => do
    Client.writeValue slave address value order
    return .done
  | writeBatch batch limits => do
    Client.writeBatch batch limits
    return .done
  | execute request => return .message (← Client.execute request)

def runAll (scene : σ → Scene) : List Operation → Client σ → List (Except Error Report) × Client σ
  | [], c => ([], c)
  | operation :: rest, c =>
    let (outcome, c) := c.perform (operation.run scene)
    let (outcomes, c) := runAll scene rest c
    (outcome :: outcomes, c)

theorem agree_run {k : Carrier σ} {k' : Carrier τ} (unicast : ∀ r : Request, r.slave ≠ 0 → k.allowed r ∧ k'.allowed r)
    {operation : Operation} (addressed : operation.Unicast) :
    Client.Agree k k' (operation.run k.scene) (operation.run k'.scene) := by
  have serve {slave : UInt8} (some : slave ≠ 0) : k.Serve k' slave := by
    intro r same
    exact unicast r (same ▸ some)
  cases operation with
  | read bank slave address quantity =>
    exact (Client.agree_bank (serve addressed) bank address quantity).bind fun _ => .pure _
  | readChunked bank slave address quantity limits stopped =>
    exact (Client.agree_readChunked (serve addressed) bank address quantity limits stopped).bind fun _ => .pure _
  | write assignment slave => exact (Client.agree_assignment (serve addressed) assignment).bind fun _ => .pure _
  | readValue slave function address tag bit order =>
    exact (Client.agree_readValue (serve addressed) function address tag bit order).bind fun _ => .pure _
  | writeValue slave address value order =>
    exact (Client.agree_writeWords (serve addressed) address _).bind fun _ => .pure _
  | writeBatch batch limits =>
    exact (Client.agree_writeGroups limits (fun group member => serve (addressed group member)) false).bind
      fun _ => .pure _
  | execute request =>
    obtain ⟨allowed, allowed'⟩ := unicast request addressed
    exact (Client.agree_execute allowed allowed').bind fun _ => .pure _

theorem runAll_alike {k : Carrier σ} {k' : Carrier τ}
    (unicast : ∀ r : Request, r.slave ≠ 0 → k.allowed r ∧ k'.allowed r) {operations : List Operation}
    (addressed : ∀ operation ∈ operations, operation.Unicast) {c : Client σ} {d : Client τ}
    (alike : Client.Alike k k' c d) :
    (runAll k.scene operations c).1 = (runAll k'.scene operations d).1 ∧
      Client.Alike k k' (runAll k.scene operations c).2 (runAll k'.scene operations d).2 := by
  induction operations generalizing c d with
  | nil => exact ⟨rfl, alike⟩
  | cons operation rest ih =>
    obtain ⟨here, addressed⟩ := List.forall_mem_cons.mp addressed
    obtain ⟨outcome, c', d', left, right, alike⟩ := (agree_run unicast here).cases alike
    obtain ⟨same, after⟩ := ih addressed alike
    simp only [runAll, left, right]
    exact ⟨congrArg (outcome :: ·) same, after⟩

/-- Over a framed link to a server, with any time limit, a run of operations that address one slave each has the
outcomes that it has without a medium, and leaves the device with the same tables and the same requests seen. -/
theorem runAll_framed (device : Device) (timeout : Nat) (logger : Logger) (realPauses : Bool)
    (operations : List Operation) (addressed : ∀ operation ∈ operations, operation.Unicast) :
    let direct := runAll DirectLink.scene operations { link := { device }, logger, realPauses }
    let tcp := runAll TcpLink.scene operations
      { link := { stream := { peer := { framing := .mbap, device } }, timeout }, logger, realPauses }
    let rtu := runAll RtuLink.scene operations
      { link := { stream := { peer := { framing := .rtu, device } }, timeout }, logger, realPauses }
    (tcp.1 = direct.1 ∧ tcp.2.link.stream.peer.device = direct.2.link.device) ∧
      (rtu.1 = direct.1 ∧ rtu.2.link.stream.peer.device = direct.2.link.device) := by
  intro direct tcp rtu
  have overTcp : Client.Alike TcpLink.carrier DirectLink.carrier
      { link := { stream := { peer := { framing := .mbap, device } }, timeout }, logger, realPauses }
      { link := { device }, logger, realPauses } :=
    ⟨⟨rfl, ⟨rfl, rfl, rfl⟩, rfl, rfl, rfl⟩, ⟨rfl, rfl⟩, rfl, rfl, rfl, rfl⟩
  have overRtu : Client.Alike RtuLink.carrier DirectLink.carrier
      { link := { stream := { peer := { framing := .rtu, device } }, timeout }, logger, realPauses }
      { link := { device }, logger, realPauses } :=
    ⟨⟨rfl, ⟨rfl, rfl, rfl⟩, rfl, rfl, rfl⟩, ⟨rfl, rfl⟩, rfl, rfl, rfl, rfl⟩
  obtain ⟨outcomes, alike⟩ := runAll_alike (fun _ _ => ⟨trivial, trivial⟩) addressed overTcp
  obtain ⟨outcomes', alike'⟩ := runAll_alike (fun _ some => ⟨some, trivial⟩) addressed overRtu
  exact ⟨⟨outcomes, congrArg Scene.device alike.scene⟩, outcomes', congrArg Scene.device alike'.scene⟩

/-- One register, a write to it and a raw read, over a serial line without a time limit. -/
theorem runAll_framed_register :
    let operations : List Operation := [.write (.register 3 7) 1, .execute ⟨1, 0x03, 3, 1, []⟩]
    let device : Device := { holding := Device.Table.empty.set 3 0 }
    let rtu := runAll RtuLink.scene operations
      { link := { stream := { peer := { framing := .rtu, device } }, timeout := 0 } }
    rtu.2.link.stream.peer.device.holding.get? 3 = some 7 ∧
      rtu.2.link.stream.peer.device.seen = [[0x03, 0, 3, 0, 1], [0x06, 0, 3, 0, 7]] := by
  intro operations device rtu
  have addressed : ∀ operation ∈ operations, operation.Unicast :=
    List.forall_mem_cons.mpr ⟨by unfold Unicast; decide, List.forall_mem_singleton.mpr (by unfold Unicast; decide)⟩
  obtain ⟨-, -, same⟩ := runAll_framed device 0 {} true operations addressed
  constructor
  · rw [same]
    decide +kernel
  · rw [same]
    decide +kernel

end Operation

end Modbus
