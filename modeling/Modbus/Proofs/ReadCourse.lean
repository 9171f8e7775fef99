import Modbus.Proofs.ChunkPlan
import Modbus.Proofs.Pacing

/-! How far a chunked read goes, whatever its reader does and whenever somebody asks to stop. What is met at the spans
of the plan, one after another, decides it all: the first span before which a stop is seen, or whose request fails, is
the last one that is reached. -/
namespace Modbus.Chunk

open Pacing (spaced gap)

variable {σ α : Type}

/-- What a read meets at a span: somebody has asked to stop, or the request for the span fails or gives values. -/
inductive Met (α : Type) where
  | stop
  | failure (e : Error)
  | values (values : List α)

/-- What a chunked read does by means of its reader. -/
inductive Act where
  | fetched (span : Span)
  | paused (ms : Nat)
  deriving DecidableEq

/-- A state, and what was done on the way to it, the oldest first. -/
structure Noted (σ : Type) where
  state : σ
  acts : List Act

namespace Noted

def spans (n : Noted σ) : List Span :=
  n.acts.filterMap fun
    | .fetched span => some span
    | .paused _ => none

def pauses (n : Noted σ) : List Nat :=
  n.acts.filterMap fun
    | .fetched _ => none
    | .paused ms => some ms

end Noted

namespace Reader

def meets (reader : Reader σ α) (span : Span) (state : σ) : Met α :=
  if reader.stopped state then .stop
  else
    match (reader.fetch span state).1 with
    | .error e => .failure e
    | .ok values => .values values

/-- What is met at one span after the other from the state before the first one on, as long as nothing ends the read. -/
def course (reader : Reader σ α) (delay : Nat) : List Span → σ → List (Met α)
  | [], _ => []
  | span :: spans, state =>
    reader.meets span state :: course reader delay spans (reader.rest delay (reader.fetch span state).2)

/-- The same reader, which notes what is done. -/
def noted (reader : Reader σ α) : Reader (Noted σ) α where
  fetch span n := ((reader.fetch span n.state).1, ⟨(reader.fetch span n.state).2, n.acts ++ [.fetched span]⟩)
  pause ms n := ⟨reader.pause ms n.state, n.acts ++ [.paused ms]⟩
  stopped n := reader.stopped n.state

/-- Before the next span: after a pause, unless the span is the first one. -/
def before (reader : Reader σ α) (delay : Nat) (first : Bool) (state : σ) : σ :=
  if first then state else reader.rest delay state

variable {reader : Reader σ α} {delay : Nat}

theorem length_course (spans : List Span) (state : σ) : (reader.course delay spans state).length = spans.length := by
  induction spans generalizing state with
  | nil => rfl
  | cons span spans ih => exact congrArg Nat.succ (ih _)

theorem before_noted (first : Bool) (n : Noted σ) :
    reader.noted.before delay first n = ⟨reader.before delay first n.state, n.acts ++ gap .paused delay !first⟩ := by
  unfold before rest gap
  cases first with
  | true => simp
  | false => by_cases none : delay = 0 <;> simp [none, noted]

end Reader

theorem readSpans_cons (reader : Reader σ α) (delay : Nat) (span : Span) (spans : List Span) (chunks : List (List α))
    (state : σ) :
    readSpans reader delay (span :: spans) chunks state =
      let asked := reader.before delay chunks.isEmpty state
      match reader.meets span asked with
      | .stop => (.error (.cancelled span.start), asked)
      | .failure e => (.error e, (reader.fetch span asked).2)
      | .values values => readSpans reader delay spans (values :: chunks) (reader.fetch span asked).2 := by
  have asked : (if chunks.isEmpty then state else reader.rest delay state) = reader.before delay chunks.isEmpty state :=
    rfl
  rw [readSpans, asked]
  dsimp only [Reader.meets]
  split
  · rfl
  · rcases reader.fetch span (reader.before delay chunks.isEmpty state) with ⟨_ | _, _⟩ <;> rfl

theorem readSpans_noted_cons (reader : Reader σ α) (delay : Nat) (span : Span) (spans : List Span)
    (chunks : List (List α)) (n : Noted σ) :
    readSpans reader.noted delay (span :: spans) chunks n =
      let asked := reader.before delay chunks.isEmpty n.state
      let waited := n.acts ++ gap .paused delay !chunks.isEmpty
      match reader.meets span asked with
      | .stop => (.error (.cancelled span.start), ⟨asked, waited⟩)
      | .failure e => (.error e, ⟨(reader.fetch span asked).2, waited ++ [.fetched span]⟩)
      | .values values =>
        readSpans reader.noted delay spans (values :: chunks)
          ⟨(reader.fetch span asked).2, waited ++ [.fetched span]⟩ := by
  rw [readSpans_cons, Reader.before_noted]
  rfl

/-- Noting what is done changes nothing. -/
theorem readSpans_noted (reader : Reader σ α) (delay : Nat) (spans : List Span) (chunks : List (List α)) (n : Noted σ) :
    readSpans reader delay spans chunks n.state =
      ((readSpans reader.noted delay spans chunks n).1, (readSpans reader.noted delay spans chunks n).2.state) := by
  induction spans generalizing chunks n with
  | nil => rfl
  | cons span spans ih =>
    rw [readSpans_cons, readSpans_noted_cons]
    dsimp only
    cases reader.meets span (reader.before delay chunks.isEmpty n.state) with
    | stop => rfl
    | failure e => rfl
    | values values => exact ih (values :: chunks) ⟨_, _⟩

theorem drop_eq_cons {β : Type} {xs : List β} {x : β} {i : Nat} (here : xs[i]? = some x) :
    xs.drop i = x :: xs.drop (i + 1) := by
  obtain ⟨inside, rfl⟩ := List.getElem?_eq_some_iff.mp here
  exact List.drop_eq_getElem_cons inside

/-- A read from the first span on has come to span `i` with these chunks, the newest first, and nothing has ended it. -/
structure Reached (reader : Reader σ α) (delay : Nat) (spans : List Span) (state : σ) (i : Nat) (chunks : List (List α))
    (n : Noted σ) : Prop where
  goesOn : readSpans reader.noted delay spans [] ⟨state, []⟩ = readSpans reader.noted delay (spans.drop i) chunks n
  acts : n.acts = spaced .paused delay ((spans.take i).map .fetched)
  begun : chunks.isEmpty = (spans.take i).isEmpty
  behind : (reader.course delay spans state).take i = chunks.reverse.map .values
  ahead : (reader.course delay spans state).drop i =
    reader.course delay (spans.drop i) (reader.before delay chunks.isEmpty n.state)

namespace Reached

variable {reader : Reader σ α} {delay i : Nat} {spans : List Span} {span : Span} {state : σ} {chunks : List (List α)}
  {n : Noted σ} {met : Met α}

theorem start (reader : Reader σ α) (delay : Nat) (spans : List Span) (state : σ) :
    Reached reader delay spans state 0 [] ⟨state, []⟩ where
  goesOn := rfl
  acts := (ite_self _).symm
  begun := rfl
  behind := rfl
  ahead := rfl

theorem meets_eq (reached : Reached reader delay spans state i chunks n) (here : spans[i]? = some span)
    (meets : (reader.course delay spans state)[i]? = some met) :
    reader.meets span (reader.before delay chunks.isEmpty n.state) = met := by
  have first := congrArg (·[0]?) reached.ahead
  rw [drop_eq_cons here, List.getElem?_drop, Nat.add_zero, meets] at first
  exact (Option.some.inj first).symm

/-- A pause was added to what was done before, unless the span is the first one. -/
theorem acts_append (reached : Reached reader delay spans state i chunks n) (here : spans[i]? = some span) :
    n.acts ++ gap .paused delay (!chunks.isEmpty) ++ [.fetched span] =
      spaced .paused delay ((spans.take (i + 1)).map .fetched) := by
  rw [List.take_add_one, here, Option.toList_some, List.map_append, List.map_singleton,
    Pacing.spaced_append_singleton, List.isEmpty_map, ← reached.begun, ← reached.acts]

/-- After a span that gives values the read comes to the next one. -/
theorem step (reached : Reached reader delay spans state i chunks n) (here : spans[i]? = some span) {values : List α}
    (gives : (reader.course delay spans state)[i]? = some (.values values)) :
    ∃ n', Reached reader delay spans state (i + 1) (values :: chunks) n' := by
  have meets := reached.meets_eq here gives
  refine ⟨⟨(reader.fetch span (reader.before delay chunks.isEmpty n.state)).2, _⟩, ?_, reached.acts_append here, ?_, ?_,
    ?_⟩
  · rw [reached.goesOn, drop_eq_cons here, readSpans_noted_cons]
    dsimp only
    rw [meets]
  · simp [List.take_add_one, here]
  · rw [List.take_add_one, gives, reached.behind, List.reverse_cons, List.map_append]
    rfl
  · rw [← List.drop_drop, reached.ahead, drop_eq_cons here]
    rfl

/-- As long as every span gives values, the read goes on. -/
theorem of_values (values : ∀ j < i, ∃ values, (reader.course delay spans state)[j]? = some (.values values)) :
    ∃ chunks n, Reached reader delay spans state i chunks n := by
  induction i with
  | zero => exact ⟨[], _, start reader delay spans state⟩
  | succ i ih =>
    obtain ⟨chunks, n, reached⟩ := ih fun j earlier => values j (Nat.lt_succ_of_lt earlier)
    obtain ⟨given, gives⟩ := values i (Nat.lt_succ_self i)
    have inside : i < spans.length := by
      rw [← reader.length_course spans state]
      exact (List.getElem?_eq_some_iff.mp gives).1
    obtain ⟨n', further⟩ := reached.step (List.getElem?_eq_getElem inside) gives
    exact ⟨_, n', further⟩

end Reached

/-- How far a read over these spans has gone: so many of them were read, and the reader has paused so often, in the
order of a read of all spans. -/
structure Went (delay : Nat) (spans : List Span) (calls pauses : Nat) (n : Noted σ) : Prop where
  calls : n.spans = spans.take calls
  pauses : n.pauses = List.replicate (if delay = 0 then 0 else pauses) delay
  acts : n.acts <+: spaced .paused delay (spans.map .fetched)

namespace Went

variable {delay i : Nat} {spans : List Span} {span : Span} {n : Noted σ}

/-- Behind the last span that was read. -/
theorem of_read {calls : Nat} (inside : calls ≤ spans.length)
    (acts : n.acts = spaced .paused delay ((spans.take calls).map .fetched)) :
    Went delay spans calls (calls - 1) n := by
  refine ⟨?_, ?_, ?_⟩
  · rw [Noted.spans, acts, Pacing.filterMap_spaced rfl, List.filterMap_map]
    exact List.filterMap_some
  · rw [Noted.pauses, acts, Pacing.filterMap_spaced_pauses rfl (List.forall_mem_map.mpr fun _ _ => rfl),
      List.length_map, List.length_take_of_le inside]
  · rw [acts]
    exact Pacing.spaced_prefix ((List.take_prefix calls spans).map _)

/-- Before a span that was reached and not read. -/
theorem of_reached (here : spans[i]? = some span)
    (acts : n.acts ++ [.fetched span] = spaced .paused delay ((spans.take (i + 1)).map .fetched)) :
    Went delay spans i i n := by
  have inside : i < spans.length := (List.getElem?_eq_some_iff.mp here).1
  have whole : Went delay spans (i + 1) i ⟨n.state, n.acts ++ [.fetched span]⟩ := .of_read inside acts
  refine ⟨?_, ?_, (List.prefix_append _ _).trans whole.acts⟩
  · have calls := whole.calls
    rw [List.take_add_one, here, Noted.spans, List.filterMap_append] at calls
    exact List.append_cancel_right calls
  · have pauses := whole.pauses
    rwa [Noted.pauses, List.filterMap_append, List.filterMap_cons_none rfl, List.filterMap_nil,
      List.append_nil] at pauses

end Went

namespace Reached

variable {reader : Reader σ α} {delay i : Nat} {spans : List Span} {span : Span} {state : σ} {chunks : List (List α)}
  {n : Noted σ}

/-- A stop that is seen before a span ends the read there. -/
theorem cancelled (reached : Reached reader delay spans state i chunks n) (here : spans[i]? = some span)
    (stop : (reader.course delay spans state)[i]? = some .stop) :
    let done := readSpans reader.noted delay spans [] ⟨state, []⟩
    done.1 = .error (.cancelled span.start) ∧ Went delay spans i i done.2 := by
  rw [reached.goesOn, drop_eq_cons here, readSpans_noted_cons]
  dsimp only
  rw [reached.meets_eq here stop]
  exact ⟨rfl, .of_reached here (reached.acts_append here)⟩

/-- A request that fails ends the read with its error. -/
theorem failed (reached : Reached reader delay spans state i chunks n) (here : spans[i]? = some span) {e : Error}
    (fails : (reader.course delay spans state)[i]? = some (.failure e)) :
    let done := readSpans reader.noted delay spans [] ⟨state, []⟩
    done.1 = .error e ∧ Went delay spans (i + 1) i done.2 := by
  rw [reached.goesOn, drop_eq_cons here, readSpans_noted_cons]
  dsimp only
  rw [reached.meets_eq here fails]
  exact ⟨rfl, .of_read (List.getElem?_eq_some_iff.mp here).1 (reached.acts_append here)⟩

/-- If nothing ends it, the read ends with all values. -/
theorem finished (all : reader.course delay spans state = chunks.map .values) :
    let done := readSpans reader.noted delay spans [] ⟨state, []⟩
    done.1 = .ok chunks.flatten ∧ Went delay spans spans.length (spans.length - 1) done.2 := by
  have size : chunks.length = spans.length := by
    rw [← reader.length_course spans state, all, List.length_map]
  have given : ∀ j < spans.length, ∃ values, (reader.course delay spans state)[j]? = some (.values values) := by
    intro j inside
    rw [all, List.getElem?_map, List.getElem?_eq_getElem (size ▸ inside)]
    exact ⟨_, rfl⟩
  obtain ⟨read, n, reached⟩ := of_values given
  have values : chunks = read.reverse := by
    have behind := reached.behind
    rw [List.take_of_length_le (Nat.le_of_eq (reader.length_course spans state)), all] at behind
    exact List.map_injective_iff.mpr (fun _ _ same => Met.values.inj same) behind
  rw [reached.goesOn, List.drop_length, readSpans, values]
  exact ⟨rfl, .of_read (Nat.le_refl _) reached.acts⟩

end Reached

/-- Either every span gives values, or there is a first one that does not. -/
theorem all_values_or_first (course : List (Met α)) :
    (∃ chunks : List (List α), course = chunks.map .values) ∨
      ∃ i : Nat, (∀ j < i, ∃ values, course[j]? = some (.values values)) ∧
        (course[i]? = some .stop ∨ ∃ e, course[i]? = some (.failure e)) := by
  induction course with
  | nil => exact .inl ⟨[], rfl⟩
  | cons met rest ih =>
    cases met with
    | stop => exact .inr ⟨0, fun _ earlier => absurd earlier (Nat.not_lt_zero _), .inl rfl⟩
    | failure e => exact .inr ⟨0, fun _ earlier => absurd earlier (Nat.not_lt_zero _), .inr ⟨e, rfl⟩⟩
    | values values =>
      rcases ih with ⟨chunks, rfl⟩ | ⟨i, before, ends⟩
      · exact .inl ⟨values :: chunks, rfl⟩
      · refine .inr ⟨i + 1, fun j earlier => ?_, ends⟩
        cases j with
        | zero => exact ⟨values, rfl⟩
        | succ j => exact before j (Nat.lt_of_succ_lt_succ earlier)

theorem exists_went (reader : Reader σ α) (delay : Nat) (spans : List Span) (state : σ) :
    ∃ calls pauses, Went delay spans calls pauses (readSpans reader.noted delay spans [] ⟨state, []⟩).2 := by
  have inside {i : Nat} {met : Met α} (meets : (reader.course delay spans state)[i]? = some met) :
      i < spans.length := by
    rw [← reader.length_course spans state]
    exact (List.getElem?_eq_some_iff.mp meets).1
  rcases all_values_or_first (reader.course delay spans state) with ⟨chunks, all⟩ | ⟨i, values, stop | ⟨e, fails⟩⟩
  · exact ⟨_, _, (Reached.finished all).2⟩
  · obtain ⟨chunks, n, reached⟩ := Reached.of_values values
    exact ⟨_, _, (reached.cancelled (List.getElem?_eq_getElem (inside stop)) stop).2⟩
  · obtain ⟨chunks, n, reached⟩ := Reached.of_values values
    exact ⟨_, _, (reached.failed (List.getElem?_eq_getElem (inside fails)) fails).2⟩

/-- A chunked read passes its reader the first spans of the plan, in order and with a pause between each two. If a stop
is first seen before span `i`, it has read `i` spans and is cancelled; if the request for span `i` fails, it has read
that span too and ends with its error; and otherwise it has read all spans and gives all chunks in a row. It has paused
as often as the index of the last span that it came to. -/
theorem read_follows_course (reader : Reader σ α) (delay : Nat) (start quantity ceiling : UInt16)
    (positive : 1 ≤ ceiling) (state : σ) :
    ∃ spans, plan start quantity ceiling = .ok spans ∧
      let course := reader.course delay spans state
      let done := read reader.noted delay start quantity ceiling ⟨state, []⟩
      read reader delay start quantity ceiling state = (done.1, done.2.state) ∧
        done.2.spans <+: spans ∧
        (∀ (i : Nat) span, spans[i]? = some span → (∀ j < i, ∃ values, course[j]? = some (.values values)) →
          (course[i]? = some .stop → done.1 = .error (.cancelled span.start) ∧ Went delay spans i i done.2) ∧
            ∀ e, course[i]? = some (.failure e) → done.1 = .error e ∧ Went delay spans (i + 1) i done.2) ∧
        ∀ chunks : List (List α), course = chunks.map .values →
          done.1 = .ok chunks.flatten ∧ Went delay spans spans.length (spans.length - 1) done.2 := by
  have nonzero : ceiling ≠ 0 := by
    rintro rfl
    exact absurd positive (by decide)
  obtain ⟨spans, planned⟩ : ∃ spans, plan start quantity ceiling = .ok spans := ⟨_, plan_eq_ok nonzero⟩
  have opened {τ : Type} (reader : Reader τ α) (state : τ) :
      read reader delay start quantity ceiling state = readSpans reader delay spans [] state := by
    rw [read, planned]
  refine ⟨spans, planned, ?_⟩
  rw [opened, opened]
  refine ⟨readSpans_noted reader delay spans [] ⟨state, []⟩, ?_, ?_, fun _ => Reached.finished⟩
  · obtain ⟨calls, pauses, went⟩ := exists_went reader delay spans state
    rw [went.calls]
    exact List.take_prefix calls spans
  · intro i span here values
    obtain ⟨chunks, n, reached⟩ := Reached.of_values values
    exact ⟨reached.cancelled here, fun e => reached.failed here⟩

/-- A reader that meets what its state says, in this order, and forgets what is behind it. -/
def scripted : Reader (List (Met α)) α where
  fetch _
    | .values values :: rest => (.ok values, rest)
    | .failure e :: rest => (.error e, rest)
    | script => (.ok [], script.tail)
  pause _ script := script
  stopped
    | .stop :: _ => true
    | _ => false

/-- Everything can be met, in whatever order. -/
theorem course_scripted (delay : Nat) {spans : List Span} {script : List (Met α)}
    (size : script.length = spans.length) : scripted.course delay spans script = script := by
  induction script generalizing spans with
  | nil =>
    obtain rfl := List.eq_nil_of_length_eq_zero size.symm
    rfl
  | cons met rest ih =>
    obtain ⟨span, spans, rfl⟩ := List.exists_cons_of_length_eq_add_one size.symm
    have still (script : List (Met α)) : (scripted : Reader (List (Met α)) α).rest delay script = script := ite_self _
    rw [Reader.course, still]
    cases met with
    | stop | failure | values => exact congrArg _ (ih (Nat.succ.inj size))

/-- Five registers in chunks of two: the second chunk is empty, and somebody asks to stop before the third. -/
theorem read_follows_course_stoppedLate :
    let done := read scripted.noted 3 10 5 2 ⟨[.values [7, 8], .values [], .stop], []⟩
    (1 : UInt16) ≤ 2 ∧ (done.1 : Except Error (List UInt16)) = .error (.cancelled 14) ∧
      done.2.spans = [⟨10, 2⟩, ⟨12, 2⟩] ∧ done.2.pauses = [3, 3] := by
  intro done
  have positive : (1 : UInt16) ≤ 2 := by decide
  obtain ⟨spans, planned, -, -, ends, -⟩ :=
    read_follows_course scripted 3 10 5 2 positive [.values [7, 8], .values ([] : List UInt16), .stop]
  have three : pieces 2 10 5 = [⟨10, 2⟩, ⟨12, 2⟩, ⟨14, 1⟩] := by decide +kernel
  obtain rfl : spans = [⟨10, 2⟩, ⟨12, 2⟩, ⟨14, 1⟩] :=
    Except.ok.inj (planned.symm.trans ((plan_eq_ok (by decide)).trans (congrArg _ three)))
  rw [course_scripted 3 rfl] at ends
  have values : ∀ j < 2, ∃ values,
      [Met.values [7, 8], .values ([] : List UInt16), .stop][j]? = some (.values values) := by
    intro j early
    match j with
    | 0 => exact ⟨_, rfl⟩
    | 1 => exact ⟨_, rfl⟩
  obtain ⟨cancelled, went⟩ := (ends 2 ⟨14, 1⟩ rfl values).1 rfl
  exact ⟨positive, cancelled, went.calls, went.pauses⟩

end Modbus.Chunk
