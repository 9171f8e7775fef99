import Modbus.Client.Batch

/-! How operations run: sequencing passes the client on and stops at the first error, and an operation that
asks one question sends exactly one request and ends with the verdict on its response. -/
namespace Modbus.Client

variable {σ α β : Type}

/-- The outcome of an operation and the client after it. -/
def perform (c : Client σ) (a : Action σ α) : Except Error α × Client σ := a.run.run c

@[simp] theorem perform_pure (c : Client σ) (x : α) : c.perform (pure x) = (.ok x, c) := rfl

@[simp] theorem perform_throw (c : Client σ) (e : Error) : c.perform (throw e : Action σ α) = (.error e, c) := rfl

@[simp] theorem perform_settled (c : Client σ) (outcome : Except Error α) :
    c.perform (settled outcome) = (outcome, c) := rfl

theorem perform_bind_ok {c c' : Client σ} {a : Action σ α} {x : α} (h : c.perform a = (.ok x, c'))
    (f : α → Action σ β) : c.perform (a >>= f) = c'.perform (f x) := by
  unfold perform at h ⊢
  rw [ExceptT.run_bind, StateT.run_bind, h]
  rfl

theorem perform_bind_error {c c' : Client σ} {a : Action σ α} {e : Error} (h : c.perform a = (.error e, c'))
    (f : α → Action σ β) : c.perform (a >>= f) = (.error e, c') := by
  unfold perform at h ⊢
  rw [ExceptT.run_bind, StateT.run_bind, h]
  rfl

theorem settled_ok_bind (x : α) (f : α → Action σ β) : (settled (.ok x) >>= f) = f x := rfl

/-- The requests given to the link, the oldest first, as they are noted (`Operation.follows_runAll`). -/
def sent (c : Client σ) : List Request :=
  c.events.reverse.filterMap fun
    | .exchanged r _ => some r
    | _ => none

def recorded (c : Client σ) (entry : LogEntry) : Client σ :=
  { c with events := (c.logger.pass entry).map .logged ++ c.events }

@[simp] theorem link_recorded (c : Client σ) (entry : LogEntry) : (c.recorded entry).link = c.link := rfl

@[simp] theorem sent_recorded (c : Client σ) (entry : LogEntry) : (c.recorded entry).sent = c.sent := by
  unfold recorded Logger.pass
  split <;> simp [sent]

/-- After a verdict, which is logged if it is an error. -/
def judged (c : Client σ) (r : Request) : Except Error α → Client σ
  | .error e => c.recorded (.ofFailure r.slave r.function e)
  | .ok _ => c

theorem perform_judge (c : Client σ) (r : Request) (verdict : Except Error α) :
    c.perform (judge r verdict) = (verdict, c.judged r verdict) := by
  cases verdict <;> rfl

@[simp] theorem link_judged (c : Client σ) (r : Request) (verdict : Except Error α) :
    (c.judged r verdict).link = c.link := by cases verdict <;> rfl

@[simp] theorem sent_judged (c : Client σ) (r : Request) (verdict : Except Error α) :
    (c.judged r verdict).sent = c.sent := by
  cases verdict with
  | error e => exact sent_recorded c _
  | ok x => rfl

variable [Link σ]

@[simp] theorem sent_pause (c : Client σ) (ms : Nat) : (c.pause ms).sent = c.sent := by
  simp [sent, pause]

/-- After a request was logged and given to the link. -/
def handed (c : Client σ) (r : Request) : Client σ :=
  { c.recorded (.ofRequest r) with
    link := (Link.send c.link r).2
    events := .exchanged r (Link.send c.link r).1 :: (c.recorded (.ofRequest r)).events }

/-- After the outcome was logged too. -/
def exchanged (c : Client σ) (r : Request) : Client σ :=
  (c.handed r).recorded
    (match (Link.send c.link r).1 with
      | .error e => .ofFailure r.slave r.function e
      | .ok response => .ofResponse r.slave response.bytes)

theorem perform_execute (c : Client σ) (r : Request) :
    c.perform (execute r) = ((Link.send c.link r).1, c.exchanged r) := by
  unfold exchanged
  change StateT.run (match (Link.send c.link r).1 with
    | .error e => do record (.ofFailure r.slave r.function e); pure (Link.send c.link r).1
    | .ok response => do record (.ofResponse r.slave response.bytes); pure (Link.send c.link r).1) (c.handed r) = _
  cases (Link.send c.link r).1 <;> rfl

@[simp] theorem link_exchanged (c : Client σ) (r : Request) : (c.exchanged r).link = (Link.send c.link r).2 := rfl

@[simp] theorem sent_exchanged (c : Client σ) (r : Request) : (c.exchanged r).sent = c.sent ++ [r] := by
  rw [exchanged, sent_recorded, ← sent_recorded c (.ofRequest r)]
  simp [sent, handed]

/-- One question: a request and the verdict on its response. -/
def ask (r : Request) (verdict : Pdu → Except Error α) : Action σ α := do
  let response ← execute r
  judge r (verdict response)

theorem perform_ask (c : Client σ) (r : Request) (verdict : Pdu → Except Error α) :
    (c.perform (ask r verdict)).1 = (Link.send c.link r).1 >>= verdict ∧
      (c.perform (ask r verdict)).2.link = (Link.send c.link r).2 ∧
      (c.perform (ask r verdict)).2.sent = c.sent ++ [r] := by
  have done := perform_execute c r
  unfold ask
  cases outcome : (Link.send c.link r).1 with
  | error e =>
    rw [outcome] at done
    rw [perform_bind_error done]
    exact ⟨rfl, link_exchanged c r, sent_exchanged c r⟩
  | ok response =>
    rw [outcome] at done
    rw [perform_bind_ok done, perform_judge]
    exact ⟨rfl, by simp, by simp⟩

/-- A question succeeds with what the verdict finds in a response. -/
theorem perform_ask_eq_ok_iff (c : Client σ) (r : Request) (verdict : Pdu → Except Error α) {x : α} :
    (c.perform (ask r verdict)).1 = .ok x ↔
      ∃ response, (Link.send c.link r).1 = .ok response ∧ verdict response = .ok x := by
  rw [(perform_ask c r verdict).1]
  cases (Link.send c.link r).1 with
  | error e => exact ⟨nofun, fun ⟨_, heard, _⟩ => nomatch heard⟩
  | ok response =>
    refine ⟨fun accepted => ⟨response, rfl, accepted⟩, ?_⟩
    rintro ⟨_, heard, accepted⟩
    obtain rfl := Except.ok.inj heard
    exact accepted

theorem read_eq_ask (maximum : UInt16) (parse : Pdu → UInt8 → UInt16 → Except Error (List α))
    (slave function : UInt8) (address quantity : UInt16) :
    (read maximum parse slave function address quantity : Action σ (List α)) =
      settled (checkQuantity quantity maximum) >>= fun _ =>
        ask { slave, function, address, quantity } fun response => parse response function quantity := rfl

theorem write_eq_ask (r : Request) :
    (write r : Action σ Unit) = ask r fun response => Response.checkEcho response r.function r.address r.echoedWord :=
  rfl

theorem writeCoalesced_eq (limits : Limits) (slave : UInt8) (commands : List Command)
    (issued : Bool) :
    (writeCoalesced limits slave commands issued : Action σ Bool) =
      settled (encodeAll (Batch.byAddress commands)) >>= fun words =>
        let start := (Batch.byAddress commands).head?.elim 0 fun c => c.address.toNat
        let ceiling := min limits.maxWriteRegisters.toNat Protocol.maxWriteRegisters.toNat
        if Protocol.addressSpaceSize < start + words.length then throw (.coalescedPastEnd words.length start)
        else if ceiling = 0 then throw .writeLimitZero
        else writeRun limits.delayMs ceiling slave start words issued := rfl

end Modbus.Client
