import Modbus.Proofs.BatchTrace
import Modbus.Proofs.Queries

/-! What a client notes while it works. Whatever its logger lets through, it notes every request that it gives to the link
with what the link answers, and every pause, in the order in which they happen; and these are all that happens to the
link. -/
namespace Modbus

/-- One line at most comes through. -/
@[simp] theorem Logger.reverse_map_pass {α : Type} (l : Logger) (entry : LogEntry) (f : LogEntry → α) :
    ((l.pass entry).map f).reverse = (l.pass entry).map f := by
  unfold pass
  split <;> rfl

/-- What a read finds wrong with a response. -/
def Bank.heard (bank : Bank) (r : Request) (response : Pdu) : Except Error Unit :=
  (bank.parse response r.function r.quantity).map fun _ => ()

namespace Response

/-- What a write finds wrong with a response. -/
def echoed (r : Request) (response : Pdu) : Except Error Unit :=
  checkEcho response r.function r.address r.echoedWord

/-- Nothing is wrong with any response. -/
def accepted (_ : Request) (_ : Pdu) : Except Error Unit := .ok ()

end Response

namespace Client

/-- The lines about what came of a request: the error of the link, or the response and then what `heard` finds wrong
with it, if anything. -/
def Exchange.answerLines (heard : Request → Pdu → Except Error Unit) (x : Exchange) : List LogEntry :=
  match x.outcome with
  | .error e => [.ofFailure x.request.slave x.request.function e]
  | .ok response =>
    .ofResponse x.request.slave response.bytes ::
      match heard x.request response with
      | .error e => [.ofFailure x.request.slave x.request.function e]
      | .ok () => []

/-- What a client does besides writing lines. -/
inductive Deed where
  | asked (x : Exchange)
  | paused (ms : Nat)

namespace Deed

def event : Deed → Event
  | asked x => x.event
  | paused ms => .paused ms

/-- What a deed adds to the history of a client, the oldest first. -/
def notes (heard : Request → Pdu → Except Error Unit) (l : Logger) : Deed → List Event
  | asked x =>
    (l.pass (.ofRequest x.request)).map .logged ++ x.event :: ((x.answerLines heard).flatMap l.pass).map .logged
  | paused ms => [.paused ms]

end Deed

variable {σ α β : Type} {heard : Request → Pdu → Except Error Unit}

/-- After these deeds, which have brought the link to `link`. -/
def having (heard : Request → Pdu → Except Error Unit) (c : Client σ) (link : σ) (done : List Deed) : Client σ :=
  { c with link, events := (done.flatMap (Deed.notes heard c.logger)).reverse ++ c.events }

theorem having_having (c : Client σ) (link link' : σ) (done more : List Deed) :
    (c.having heard link done).having heard link' more = c.having heard link' (done ++ more) := by
  simp only [having, List.flatMap_append, List.reverse_append, List.append_assoc]

theorem reverse_events_having (c : Client σ) (link : σ) (done : List Deed) :
    (c.having heard link done).events.reverse =
      c.events.reverse ++ done.flatMap (Deed.notes heard c.logger) := by
  rw [having, List.reverse_append, List.reverse_reverse]

variable [Link σ]

section Follows

variable {realPauses : Bool} {link mid last : σ}

/-- The events are what lies between one link and another: each request was given to the link that the events before it
lead to, and its outcome is what this link answered; apart from that only pauses that are real change a link. -/
def Follows (realPauses : Bool) : σ → List Event → σ → Prop
  | link, [], last => last = link
  | link, .exchanged r outcome :: rest, last =>
    outcome = (Link.send link r).1 ∧ Follows realPauses (Link.send link r).2 rest last
  | link, .logged _ :: rest, last => Follows realPauses link rest last
  | link, .paused ms :: rest, last => Follows realPauses (if realPauses then Link.elapse link ms else link) rest last

theorem Follows.append {events later : List Event} (first : Follows realPauses link events mid)
    (second : Follows realPauses mid later last) : Follows realPauses link (events ++ later) last := by
  induction events generalizing link with
  | nil =>
    obtain rfl := first
    exact second
  | cons e rest ih =>
    cases e with
    | exchanged r outcome => exact ⟨first.1, ih first.2⟩
    | logged entry => exact ih first
    | paused ms => exact ih first

theorem follows_logged (link : σ) (entries : List LogEntry) : Follows realPauses link (entries.map .logged) link := by
  induction entries with
  | nil => rfl
  | cons entry rest ih => exact ih

/-- The lines around the deeds leave the link alone. -/
theorem Follows.notes {done : List Deed} (follows : Follows realPauses link (done.map Deed.event) last) (l : Logger) :
    Follows realPauses link (done.flatMap (Deed.notes heard l)) last := by
  induction done generalizing link with
  | nil => exact follows
  | cons d rest ih =>
    cases d with
    | paused ms => exact ih follows
    | asked x =>
      obtain ⟨answered, later⟩ := follows
      rw [List.flatMap_cons, Deed.notes, List.append_assoc, List.cons_append]
      exact (follows_logged link _).append ⟨answered, (follows_logged _ _).append (ih later)⟩

end Follows

section Blocks

variable (c : Client σ) {r : Request}

theorem exchanged_of_error {e : Error} (failed : (Link.send c.link r).1 = .error e) :
    c.exchanged r = c.having heard (Link.send c.link r).2 [.asked ⟨r, .error e⟩] := by
  simp [exchanged, handed, recorded, failed, having, Deed.notes, Exchange.answerLines, Exchange.event]

/-- The verdict on a response adds its line behind the response. -/
theorem judged_exchanged {response : Pdu} (answered : (Link.send c.link r).1 = .ok response) {verdict : Except Error α}
    (hears : heard r response = verdict.map fun _ => ()) :
    (c.exchanged r).judged r verdict = c.having heard (Link.send c.link r).2 [.asked ⟨r, .ok response⟩] := by
  cases verdict <;>
    simp [judged, exchanged, handed, recorded, answered, having, Deed.notes, Exchange.answerLines, Exchange.event, hears,
      Except.map]

end Blocks

/-- What is done, and what comes of it, is decided by the link and by whether pauses are real. Whatever logger the client
has and whatever it noted before, it notes the same deeds, and they are what happens to the link. -/
def Traced (heard : Request → Pdu → Except Error Unit) (run : Client σ → Except Error α × Client σ) : Prop :=
  -- The deeds are fixed before the client is, so its logger has no say in them.
  ∀ link realPauses, ∃ outcome link' done, Follows realPauses link (done.map Deed.event) link' ∧
    ∀ c : Client σ, c.link = link → c.realPauses = realPauses → run c = (outcome, c.having heard link' done)

namespace Traced

theorem congr {run run' : Client σ → Except Error α × Client σ} (traced : Traced heard run')
    (same : ∀ c, run c = run' c) : Traced heard run := by
  rwa [funext same]

theorem done (outcome : Except Error α) : Traced heard fun c : Client σ => (outcome, c) := by
  intro link _
  refine ⟨outcome, link, [], rfl, ?_⟩
  rintro c rfl _
  rfl

theorem andThen {first : Client σ → Except Error α × Client σ} {rest : α → Client σ → Except Error β × Client σ}
    (front : Traced heard first) (back : ∀ x, Traced heard (rest x)) :
    Traced heard fun c => match first c with
      | (.error e, c) => (.error e, c)
      | (.ok x, c) => rest x c := by
  intro link realPauses
  obtain ⟨outcome, link', done, follows, front⟩ := front link realPauses
  cases outcome with
  | error e =>
    refine ⟨.error e, link', done, follows, fun c here clock => ?_⟩
    simp only [front c here clock]
  | ok x =>
    obtain ⟨outcome, link'', more, later, back⟩ := back x link' realPauses
    refine ⟨outcome, link'', done ++ more, ?_, fun c here clock => ?_⟩
    · rw [List.map_append]
      exact follows.append later
    simp only [front c here clock, back (c.having heard link' done) rfl clock, having_having]

/-- The link alone decides which of two ways is taken. -/
theorem ite {yes no : Client σ → Except Error α × Client σ} (p : σ → Bool) (left : Traced heard yes)
    (right : Traced heard no) : Traced heard fun c => if p c.link then yes c else no c := by
  intro link realPauses
  by_cases decided : p link
  · obtain ⟨outcome, link', done, follows, left⟩ := left link realPauses
    refine ⟨outcome, link', done, follows, ?_⟩
    rintro c rfl clock
    exact (if_pos decided).trans (left c rfl clock)
  · obtain ⟨outcome, link', done, follows, right⟩ := right link realPauses
    refine ⟨outcome, link', done, follows, ?_⟩
    rintro c rfl clock
    exact (if_neg decided).trans (right c rfl clock)

theorem bind {a : Action σ α} {f : α → Action σ β} (front : Traced heard (perform · a))
    (back : ∀ x, Traced heard (perform · (f x))) : Traced heard (perform · (a >>= f)) := by
  refine (front.andThen back).congr fun c => ?_
  rcases performed : c.perform a with ⟨e | x, c'⟩
  · exact perform_bind_error performed f
  · exact perform_bind_ok performed f

theorem settled (outcome : Except Error α) : Traced heard fun c : Client σ => c.perform (Client.settled outcome) :=
  done outcome

theorem pause (ms : Nat) : Traced heard fun c : Client σ => (.ok (), c.pause ms) := by
  intro link realPauses
  refine ⟨.ok (), if realPauses then Link.elapse link ms else link, [.paused ms], rfl, ?_⟩
  rintro c rfl rfl
  rfl

/-- A question leaves the block of its request, if `heard` finds wrong what the verdict does. -/
theorem ask (r : Request) {verdict : Pdu → Except Error α}
    (hears : ∀ response, heard r response = (verdict response).map fun _ => ()) :
    Traced heard fun c : Client σ => c.perform (Client.ask r verdict) := by
  intro link _
  refine ⟨(Link.send link r).1 >>= verdict, (Link.send link r).2, [.asked ⟨r, (Link.send link r).1⟩], ⟨rfl, rfl⟩, ?_⟩
  rintro c rfl _
  change c.perform (Client.execute r >>= fun response => judge r (verdict response)) = _
  have executed := perform_execute c r
  cases outcome : (Link.send c.link r).1 with
  | error e =>
    rw [outcome] at executed
    rw [perform_bind_error executed, c.exchanged_of_error outcome]
    rfl
  | ok response =>
    rw [outcome] at executed
    rw [perform_bind_ok executed, perform_judge, c.judged_exchanged outcome (hears response)]
    rfl

theorem execute (r : Request) : Traced Response.accepted fun c : Client σ => c.perform (Client.execute r) := by
  have asks : (Client.execute r : Action σ Pdu) = Client.ask r .ok := (bind_pure (Client.execute r)).symm
  rw [asks]
  exact ask r fun _ => rfl

theorem pace (delay : Nat) (issued : Bool) :
    Traced heard fun c : Client σ => c.perform (Client.pace delay issued) := by
  unfold Client.pace
  split
  · exact pause delay
  · exact done _

section Reads

variable (bank : Bank) (slave : UInt8)

theorem read (address quantity : UInt16) :
    Traced bank.heard fun c : Client σ => c.perform (bank.read slave address quantity) := by
  rw [bank.read_eq, read_eq_ask]
  exact (settled _).bind fun _ => ask _ fun _ => rfl

theorem readSpans (stopped : σ → Bool) (delay : Nat) (spans : List Chunk.Span) (chunks : List (List bank.Cell)) :
    Traced bank.heard (Chunk.readSpans (bank.reader slave stopped) delay spans chunks) := by
  induction spans generalizing chunks with
  | nil => exact done _
  | cons span spans ih =>
    have rest : Traced bank.heard fun c : Client σ =>
        ((.ok (), Bank.rested c delay chunks.isEmpty) : Except Error Unit × Client σ) := by
      unfold Bank.rested
      split
      · exact done _
      · exact pause delay
    have next := (read bank slave span.start span.count).andThen fun values => ih (values :: chunks)
    refine (rest.andThen fun _ => ite stopped (done (.error (.cancelled span.start))) next).congr fun c => ?_
    rw [bank.readSpans_cons]
    dsimp only
    split
    · rfl
    · rcases (Bank.rested c delay chunks.isEmpty).perform (bank.read slave span.start span.count) with ⟨_ | _, _⟩ <;>
        rfl

theorem readChunked (address quantity : UInt16) (limits : Limits) (stopped : σ → Bool) :
    Traced bank.heard fun c : Client σ => c.perform (bank.readChunked slave address quantity limits stopped) := by
  simp only [bank.perform_readChunked, Chunk.read]
  cases Chunk.plan address quantity (bank.ceiling limits) with
  | error e => exact done (.error e)
  | ok spans => exact readSpans bank slave stopped limits.delayMs spans []

theorem readValue (address : UInt16) (tag : String) (bit : UInt8) (order : ByteOrder) :
    Traced bank.heard fun c : Client σ => c.perform (Client.readValue slave bank.code.toByte address tag bit order) := by
  cases known : bank.width? tag with
  | none =>
    rw [bank.readValue_of_unknown known]
    exact done (.error (.unsupportedType tag))
  | some width =>
    rw [bank.readValue_eq known]
    exact (read bank slave address (.ofNat width)).bind fun _ => settled _

end Reads

theorem write (s : Assignment) (slave : UInt8) :
    Traced Response.echoed fun c : Client σ => c.perform (s.write slave) := by
  by_cases admissible : s.Admissible
  · rw [s.write_eq slave admissible, write_eq_ask]
    refine ask _ fun response => ?_
    rw [Response.echoed]
    cases Response.checkEcho response _ _ _ <;> rfl
  · obtain ⟨e, -, refused⟩ := s.write_out_of_range slave admissible (σ := σ)
    rw [refused]
    exact done (.error e)

theorem writeInTurn (delay : Nat) (writes : List (UInt8 × Assignment)) (issued : Bool) :
    Traced Response.echoed fun c : Client σ => c.perform (Client.writeInTurn delay writes issued) := by
  induction writes generalizing issued with
  | nil => exact done (.ok issued)
  | cons w rest ih => exact (pace delay issued).bind fun _ => (write w.2 w.1).bind fun _ => ih true

theorem writeBatch (batch : Batch) (limits : Limits) :
    Traced Response.echoed fun c : Client σ => c.perform (Client.writeBatch batch limits) := by
  rw [writeBatch_eq_follow]
  refine bind ((writeInTurn limits.delayMs _ false).bind fun issued => ?_) fun _ => done (.ok ())
  cases (batch.plan limits).failure with
  | none => exact done (.ok issued)
  | some e => exact done (.error e)

end Traced

end Client

namespace Operation

open Client (Exchange Traced Follows)

/-- What an operation finds wrong with a response to one of its requests. A raw request takes any response. -/
def heard : Operation → Request → Pdu → Except Error Unit
  | read bank .. | readChunked bank .. => bank.heard
  | readValue _ function .. => (Bank.ofByte? function).elim Response.accepted Bank.heard
  | write .. | writeValue .. | writeBatch .. => Response.echoed
  | execute _ => Response.accepted

variable {σ : Type} [Link σ] (scene : σ → Scene)

theorem traced_run (operation : Operation) :
    Traced operation.heard fun c : Client σ => c.perform (operation.run scene) := by
  cases operation with
  | read bank slave address quantity => exact (Traced.read bank slave address quantity).bind fun _ => .done _
  | readChunked bank slave address quantity limits stopped =>
    exact (Traced.readChunked bank slave address quantity limits _).bind fun _ => .done _
  | write assignment slave => exact (Traced.write assignment slave).bind fun _ => .done _
  | readValue slave function address tag bit order =>
    refine Traced.bind ?_ fun _ => .done _
    rw [heard]
    cases reads : Bank.ofByte? function with
    | none =>
      rw [Client.readValue, Bank.not_isRead_of_ofByte? reads]
      exact .done (.error (.notReadFunction function))
    | some bank =>
      obtain rfl := Bank.code_of_ofByte? reads
      exact .readValue bank slave address tag bit order
  | writeValue slave address value order =>
    refine Traced.bind ?_ fun _ => .done _
    rw [Client.writeValue, Client.writeWords_eq]
    exact .write (.ofWords address (value.encode order)) slave
  | writeBatch batch limits => exact (Traced.writeBatch batch limits).bind fun _ => .done _
  | execute r => exact (Traced.execute r).bind fun _ => .done _

/-- Over any link, what a client notes during a run of operations is what happened to its link: the requests that were
given to it, one after another, each with what it answered, and the pauses between them. -/
theorem follows_runAll (operations : List Operation) (c : Client σ) :
    let done := runAll scene operations c
    ∃ noted, done.2.events.reverse = c.events.reverse ++ noted ∧ Follows c.realPauses c.link noted done.2.link := by
  induction operations generalizing c with
  | nil => exact ⟨[], (List.append_nil _).symm, rfl⟩
  | cons operation rest ih =>
    obtain ⟨outcome, link', acts, follows, run⟩ := operation.traced_run scene c.link c.realPauses
    have first : Follows c.realPauses c.link (acts.flatMap (Client.Deed.notes operation.heard c.logger)) link' :=
      follows.notes c.logger
    obtain ⟨noted, events, later⟩ := ih (c.having operation.heard link' acts)
    simp only [runAll, run c rfl rfl]
    refine ⟨_, ?_, first.append later⟩
    rw [events, Client.reverse_events_having, List.append_assoc]

end Operation

end Modbus
