import Mathlib.Algebra.GroupWithZero.Nat
import Mathlib.Data.List.DropRight
import Mathlib.Data.List.Induction
import Modbus.Batch.Batcher

/-! When a batcher asks to be released. It has two triggers with rules of their own: the window runs from the last release
and a clear leaves it alone, while the number of commands starts again at either. Both are read off the history of a run.
The window is given in milliseconds and compared in nanoseconds, which a 64-bit word does not always have room for. -/
namespace Modbus.Batcher

/-- What can happen to a batcher and to the clock that it reads. -/
inductive Event where
  | enqueue (command : Command)
  | release
  | clear
  /-- The clock moves by nanoseconds. -/
  | advance (time : Nat)

namespace Event

def isRelease : Event → Bool
  | release => true
  | _ => false

def isEnqueue : Event → Bool
  | enqueue _ => true
  | _ => false

/-- Whether what is pending is pending no longer. -/
def empties : Event → Bool
  | release | clear => true
  | _ => false

def duration : Event → Nat
  | advance time => time
  | _ => 0

/-- The nanoseconds since the last release, or since the beginning if there was none. -/
def sinceRelease (events : List Event) : Nat := ((events.rtakeWhile (!·.isRelease)).map duration).sum

/-- The commands that were enqueued since the last release or clear. -/
def enqueuedSince (events : List Event) : Nat := (events.rtakeWhile (!·.empties)).countP isEnqueue

/-- The clock can tell how long ago the last release was: less than 292 years. -/
def InRange (events : List Event) : Prop := sinceRelease events < 2 ^ 63

instance (events : List Event) : Decidable (InRange events) := inferInstanceAs (Decidable (_ < _))

/-- A release is due: the window, in milliseconds, has passed since the last one, or as many commands as make a batch
were enqueued since the last release or clear. -/
def Due (window : Int64) (maxBatch : Nat) (events : List Event) : Prop :=
  window.toInt * 1000000 ≤ sinceRelease events ∨ maxBatch ≤ enqueuedSince events

instance (window : Int64) (maxBatch : Nat) (events : List Event) : Decidable (Due window maxBatch events) :=
  inferInstanceAs (Decidable (_ ∨ _))

theorem sinceRelease_append_singleton (events : List Event) (e : Event) :
    sinceRelease (events ++ [e]) = if e.isRelease then 0 else sinceRelease events + e.duration := by
  rw [sinceRelease, List.rtakeWhile_concat]
  cases e.isRelease <;> simp [sinceRelease]

theorem enqueuedSince_append_singleton (events : List Event) (e : Event) :
    enqueuedSince (events ++ [e]) = if e.empties then 0 else enqueuedSince events + e.isEnqueue.toNat := by
  rw [enqueuedSince, List.rtakeWhile_concat]
  cases e.empties <;> cases counted : e.isEnqueue <;> simp [enqueuedSince, counted]

/-- For the window it is as if there had been no clear. -/
theorem sinceRelease_clear (before later : List Event) :
    sinceRelease (before ++ clear :: later) = sinceRelease (before ++ later) := by
  induction later using List.reverseRecOn with
  | nil => simp [sinceRelease_append_singleton, isRelease, duration]
  | append_singleton later e ih =>
    rw [← List.cons_append, ← List.append_assoc, ← List.append_assoc, sinceRelease_append_singleton,
      sinceRelease_append_singleton, ih]

end Event

/-- The nanoseconds of a window, as a word, compare with every time as the window does exactly if there is room for them or
the window is over from the start, and wrapping does not make them positive then. -/
theorem forall_window_iff (window : Int64) :
    (∀ time < 2 ^ 63, (window * 1000000).toInt ≤ (time : Nat) ↔ window.toInt * 1000000 ≤ (time : Nat)) ↔
      window.toInt ≤ 9223372036854 ∧ (0 < window * 1000000 → 0 < window) := by
  have word : (window * 1000000).toInt = (window.toInt * 1000000).bmod (2 ^ 64) := Int64.toInt_mul window 1000000
  have below : (window * 1000000).toInt < 2 ^ 63 := Int64.toInt_lt _
  have zero : (0 : Int64).toInt = 0 := rfl
  rw [Int64.lt_iff_toInt_lt, Int64.lt_iff_toInt_lt, zero]
  constructor
  · intro same
    have first := same 0 (by decide)
    have last := same (2 ^ 63 - 1) (by decide)
    omega
  · rintro ⟨short, sign⟩ time -
    by_cases positive : 0 < window.toInt
    · rw [word, Int.bmod_eq_of_le (by omega) (by omega)]
    · omega

/-- A batcher and the clock that it reads. -/
structure Timed where
  batcher : Batcher
  now : Int64

namespace Timed

open Event

def start (window : Int64) (maxBatch : Nat) (now : Int64) : Timed := ⟨.start window maxBatch now, now⟩

def step (s : Timed) : Event → Timed
  | .enqueue c => { s with batcher := s.batcher.enqueue c }
  | .release => { s with batcher := (s.batcher.release s.now).2 }
  | .clear => { s with batcher := s.batcher.clear }
  | .advance time => { s with now := s.now + .ofNat time }

def run (s : Timed) (events : List Event) : Timed := events.foldl step s

def elapsed (s : Timed) : Int64 := s.batcher.elapsed s.now

def due (s : Timed) : Bool := s.batcher.shouldRelease s.now

theorem run_append (s : Timed) (events later : List Event) : s.run (events ++ later) = (s.run events).run later :=
  List.foldl_append

theorem due_iff (s : Timed) :
    s.due = true ↔ s.batcher.window * 1000000 ≤ s.elapsed ∨ s.batcher.maxBatch ≤ s.batcher.count := by
  simp [due, shouldRelease, elapsed]

/-- A batcher whose figures are those of a history. -/
structure Tracks (s : Timed) (window : Int64) (maxBatch : Nat) (events : List Event) : Prop where
  window : s.batcher.window = window
  maxBatch : s.batcher.maxBatch = maxBatch
  released : s.now = s.batcher.lastRelease + .ofNat (sinceRelease events)
  count : s.batcher.count = enqueuedSince events

variable {s : Timed} {window : Int64} {maxBatch : Nat} {events : List Event}

theorem Tracks.step (h : s.Tracks window maxBatch events) (e : Event) :
    (s.step e).Tracks window maxBatch (events ++ [e]) := by
  have since := sinceRelease_append_singleton events e
  have enqueued := enqueuedSince_append_singleton events e
  cases e with
  | enqueue c => exact ⟨h.window, h.maxBatch, since ▸ h.released, enqueued ▸ congrArg (· + 1) h.count⟩
  | release => exact ⟨h.window, h.maxBatch, since ▸ (Int64.add_zero s.now).symm, enqueued ▸ rfl⟩
  | clear => exact ⟨h.window, h.maxBatch, since ▸ h.released, enqueued ▸ rfl⟩
  | advance time =>
    refine ⟨h.window, h.maxBatch, ?_, enqueued ▸ h.count⟩
    have later : s.now + .ofNat time = s.batcher.lastRelease + .ofNat (sinceRelease events + time) := by
      rw [h.released, Int64.ofNat_add, Int64.add_assoc]
    rw [since]
    exact later

theorem tracks_run (window : Int64) (maxBatch : Nat) (now : Int64) (events : List Event) :
    ((start window maxBatch now).run events).Tracks window maxBatch events := by
  induction events using List.reverseRecOn with
  | nil => exact ⟨rfl, rfl, (Int64.add_zero now).symm, rfl⟩
  | append_singleton events e ih =>
    rw [run_append]
    exact ih.step e

theorem Tracks.elapsed_eq (h : s.Tracks window maxBatch events) : s.elapsed = .ofNat (sinceRelease events) := by
  rw [elapsed, Batcher.elapsed, h.released, Int64.add_comm, Int64.add_sub_cancel]

theorem Tracks.due_iff (h : s.Tracks window maxBatch events) :
    s.due = true ↔ window * 1000000 ≤ .ofNat (sinceRelease events) ∨ maxBatch ≤ enqueuedSince events := by
  rw [Timed.due_iff, h.elapsed_eq, h.window, h.maxBatch, h.count]

/-- As long as the clock can tell the time, it is compared as a number. -/
theorem Tracks.due_iff_of_inRange (h : s.Tracks window maxBatch events) (told : InRange events) :
    s.due = true ↔ (window * 1000000).toInt ≤ sinceRelease events ∨ maxBatch ≤ enqueuedSince events := by
  rw [h.due_iff, Int64.le_iff_toInt_le, Int64.toInt_ofNat_of_lt told]

/-- Without a release or a clear in between, time and commands only become more. -/
theorem grown_append (events : List Event) {later : List Event} (keep : ∀ e ∈ later, e.empties = false) :
    sinceRelease events ≤ sinceRelease (events ++ later) ∧
      enqueuedSince events ≤ enqueuedSince (events ++ later) := by
  induction later generalizing events with
  | nil => simp
  | cons e later ih =>
    obtain ⟨first, others⟩ := List.forall_mem_cons.mp keep
    obtain ⟨time, number⟩ := ih (events ++ [e]) others
    have unreleased : e.isRelease = false := by cases e <;> first | rfl | exact first
    rw [sinceRelease_append_singleton, unreleased, List.append_assoc, List.singleton_append] at time
    rw [enqueuedSince_append_singleton, first, List.append_assoc, List.singleton_append] at number
    exact ⟨(Nat.le_add_right _ _).trans time, (Nat.le_add_right _ _).trans number⟩

/-- A batcher asks to be released exactly if the nanoseconds of the window are at most those since the last release, both
as words, or as many commands as make a batch were enqueued since the last release or clear. As long as the clock can tell
the time, this is when a release is due, for every run exactly if the window is one whose nanoseconds compare as it does,
or a batch is made of no commands. And the batcher goes on asking until a release or a clear, and a clear leaves the time
that counts for the window as it is. -/
theorem due_iff_history (window : Int64) (maxBatch : Nat) (now : Int64) :
    let after := (start window maxBatch now).run
    (∀ events, (after events).elapsed = .ofNat (sinceRelease events) ∧
      ((after events).due = true ↔
        window * 1000000 ≤ .ofNat (sinceRelease events) ∨ maxBatch ≤ enqueuedSince events)) ∧
    ((∀ events, InRange events → ((after events).due = true ↔ Due window maxBatch events)) ↔
      maxBatch = 0 ∨ window.toInt ≤ 9223372036854 ∧ (0 < window * 1000000 → 0 < window)) ∧
    (∀ events later, (∀ e ∈ later, e.empties = false) → InRange (events ++ later) → (after events).due = true →
      (after (events ++ later)).due = true) ∧
    (∀ before later, (after (before ++ .clear :: later)).elapsed = (after (before ++ later)).elapsed) := by
  intro after
  have tracks : ∀ events, (after events).Tracks window maxBatch events := tracks_run window maxBatch now
  refine ⟨fun events => ⟨(tracks events).elapsed_eq, (tracks events).due_iff⟩, ?_, ?_, ?_⟩
  · rw [← forall_window_iff]
    constructor
    -- A run that only waits tells about each time, and nothing is pending in it.
    · intro same
      refine (Nat.eq_zero_or_pos maxBatch).imp_right fun positive time short => ?_
      have since : sinceRelease [.advance time] = time :=
        (sinceRelease_append_singleton [] (.advance time)).trans (Nat.zero_add time)
      have told : InRange [.advance time] := since.trans_lt short
      have none : ¬ maxBatch ≤ enqueuedSince [.advance time] := Nat.not_le_of_gt positive
      have waited := ((tracks _).due_iff_of_inRange told).symm.trans (same _ told)
      rwa [Due, or_iff_left none, or_iff_left none, since] at waited
    · intro fits events told
      rw [(tracks events).due_iff_of_inRange told]
      rcases fits with rfl | fits
      · exact iff_of_true (.inr (Nat.zero_le _)) (.inr (Nat.zero_le _))
      · exact or_congr_left (fits _ told)
  · intro events later keep told due
    obtain ⟨time, number⟩ := grown_append events keep
    rw [(tracks _).due_iff_of_inRange (time.trans_lt told)] at due
    rw [(tracks _).due_iff_of_inRange told]
    refine due.imp (fun passed => ?_) fun full => full.trans number
    exact Int.le_trans passed (Int.ofNat_le.mpr time)
  · intro before later
    rw [(tracks _).elapsed_eq, (tracks _).elapsed_eq, sinceRelease_clear]

/-- A clear between two commands of a batch of two puts the size off but not the window. Once the batch is full it stays
so. -/
theorem due_iff_history_cleared :
    let c : Command := { slave := 1, function := 6, address := 0 }
    let after := (start 20 2 5).run
    (after [.enqueue c, .advance 19999999, .clear, .enqueue c]).due = false ∧
      (after [.enqueue c, .advance 19999999, .clear, .enqueue c, .enqueue c]).due = true ∧
      (after ([.enqueue c, .advance 19999999, .clear, .enqueue c, .enqueue c] ++ [.enqueue c, .advance 0])).due = true ∧
      (after [.enqueue c, .advance 19999999, .clear, .advance 1]).due = true := by
  intro c after
  obtain ⟨-, same, stays, -⟩ := due_iff_history 20 2 5
  have triggers : ∀ events, InRange events → ((after events).due = true ↔ Due 20 2 events) :=
    same.mpr (.inr ⟨by decide, fun _ => by decide⟩)
  have full : (after [.enqueue c, .advance 19999999, .clear, .enqueue c, .enqueue c]).due = true :=
    (triggers _ (by decide)).mpr (.inr (by decide))
  refine ⟨?_, full, stays _ _ (by simp [empties]) (by decide) full, (triggers _ (by decide)).mpr (.inl (by decide))⟩
  exact Bool.eq_false_iff.mpr fun due => absurd ((triggers _ (by decide)).mp due) (by decide)

/-- A window of one millisecond more than there is room for is over at once, and so is the longest window there is. -/
theorem due_of_long_window :
    let after (window : Int64) := (start window 100 0).run
    (after 9223372036855 [.advance 1000]).due = true ∧ ¬ Due 9223372036855 100 [.advance 1000] ∧
      (after .maxValue []).due = true ∧ ¬ Due .maxValue 100 [] := by
  decide

end Timed

end Modbus.Batcher
