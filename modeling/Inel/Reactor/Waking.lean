import Inel.Op.Net
import Inel.Reactor.Course

/-!
# Waking the last to ask

A completion wakes the waker kept since the entry was submitted. A later poll with
another waker leaves it in place, so the waker of the most recent poll is woken
exactly when it is the waker of the first.
-/

namespace Inel.Reactor

open SlotTable Transitions

/-- The waker of the poll that submitted, and that of the most recent poll if it
returned `Pending`. -/
structure Asked (W : Type) where
  submitter : Option W
  last : Option W
deriving DecidableEq, Repr

/-- The waker kept for a waiting submission is that of the poll that submitted. -/
def Stage.Asks {W C : Type} (asked : Asked W) : Stage W C → Prop
  | .fresh => asked.last = none
  | .waiting waker _ _ => asked.submitter = some waker
  | .done => asked.last = none
  | _ => True

namespace Lifetime

variable {O E Out W C : Type}

def recordAsker (asked : Asked W) (life : Lifetime O E W C) (move : Move O E W C)
    (outcome : Outcome Out W C) : Asked W :=
  match move.asker, outcome.value with
  | some waker, some (.ok .pending) =>
      ⟨if life.submission.state = .initial then some waker else asked.submitter, some waker⟩
  | some _, _ => ⟨asked.submitter, none⟩
  | none, _ => asked

def askedMachine (op : MultiOp O E Out C) (streams : Bool) :
    Machine (Lifetime O E W C × Asked W) (Move O E W C) Panic :=
  watched op streams ⟨none, none⟩ recordAsker

variable {op : MultiOp O E Out C} {streams : Bool}

/-- No move changes the waker kept for a waiting submission. -/
theorem asks_step {life : Lifetime O E W C} {course course' : Course O W C} {asked : Asked W}
    {move : Move O E W C} {outcome : Outcome Out W C} (hof : course.Of life)
    (hasks : course.stage.Asks asked) (hstep : Course.Step op course move course' outcome) :
    course'.stage.Asks (recordAsker asked life move outcome) := by
  cases hstep with
  | submits hmove =>
      have hinitial : life.submission.state = .initial := hof.stage.2.1
      simp [recordAsker, hmove, hinitial, Stage.Asks]
  | waits hmove =>
      obtain ⟨-, -, -, key, hstate, -⟩ := hof.stage
      simpa [recordAsker, hmove, hstate, Stage.Asks] using hasks
  | @answers o move asker waker result rest more value uses hmove hdecode =>
      have hlast : recordAsker asked life move ⟨some (.ok (.ready (some value))), uses, []⟩ =
          ⟨asked.submitter, none⟩ := by
        simp [recordAsker, hmove]
      rw [hlast]
      cases result.hasMore with
      | true => exact hasks
      | false => rfl
  | panics hmove hdecode => trivial
  | ends hmove => simp [recordAsker, hmove, Stage.Asks]
  | dropsFresh => trivial
  | dropsDone => trivial
  | @cancels o waker pending more => cases more <;> trivial
  | completes => exact hasks
  | consumes => trivial
  | strays => trivial
  | others => exact hasks

theorem Asks.of_reach {s : Lifetime O E W C × Asked W}
    (h : Reach (askedMachine op streams) Fits s) :
    ∃ course : Course O W C, course.Of s.1 ∧ course.stage.Asks s.2 := by
  refine Reach.invariant (I := fun s => ∃ course : Course O W C, course.Of s.1 ∧
    course.stage.Asks s.2) ?_ ?_ h
  · rintro ⟨life, asked⟩ ⟨⟨value, options, entries, rfl⟩, rfl⟩
    exact ⟨_, fresh_of value options entries, rfl⟩
  · rintro ⟨life, asked⟩ move ⟨life', asked'⟩ ⟨course, hof, hasks⟩ hpermits hfits hok
    obtain ⟨outcome, hexec, rfl⟩ := watched_step hok
    obtain ⟨course', hstep, hof'⟩ := hof.step hpermits hfits hexec
    exact ⟨course', hof', asks_step hof hasks hstep⟩

/-- A completion wakes the waker of the most recent poll, if that returned
`Pending`, if and only if the poll that submitted had the same waker. -/
theorem recent_waker_woken_iff {s : Lifetime O E W C × Asked W}
    (h : Reach (askedMachine op streams) Fits s) (hheld : s.1.phase = .held) {key : Key}
    {result : RingResult} {fill : O → O}
    (hpermits : s.1.permits streams (.completion key result fill) = true) :
    ∃ life' outcome, s.1.exec op (.completion key result fill) = .ok (life', outcome) ∧
      ((∀ waker, s.2.last = some waker → Effect.wake waker ∈ outcome.effects) ↔
        ∀ waker, s.2.last = some waker → s.2.submitter = some waker) := by
  obtain ⟨course, hof, hasks⟩ := Asks.of_reach h
  simp only [permits, Bool.and_eq_true, beq_iff_eq] at hpermits
  obtain ⟨stored, pending, life', rfl, hok, -⟩ :=
    hof.completed op result fill hheld hpermits.1 hpermits.2
  have hsubmitter : s.2.submitter = some stored := hasks
  refine ⟨life', _, hok, ?_⟩
  simp [hsubmitter, eq_comm]

def fitting {γ : Type} (s : Lifetime O E W C × γ) (move : Move O E W C) : Bool :=
  s.1.permits true move && s.1.fits move

theorem fitting_spec (s : Lifetime O E W C × Asked W) (move : Move O E W C)
    (h : fitting s move = true) : (askedMachine op true).permits s move ∧ Fits s move := by
  simp only [fitting, Bool.and_eq_true] at h
  exact h

def polledBy (first second : Nat) : List (Move AcceptMulti Opcode Nat Cancellation) :=
  [.pollNext 0 first, .others .enter, .pollNext 0 second]

theorem reach_polledBy (first second : Nat)
    (htest : (replay (askedMachine AcceptMulti.op true) fitting
      (fresh ⟨.fd 3⟩ {} 4, ⟨none, none⟩) (polledBy first second)).any (fun s =>
        s.1.phase = .held && s.1.permits true (.completion ⟨0⟩ ⟨5, cqeMore⟩ id) &&
          s.2 = ⟨some first, some second⟩) = true) :
    ∃ s : Lifetime AcceptMulti Opcode Nat Cancellation × Asked Nat,
      Reach (askedMachine AcceptMulti.op true) Fits s ∧ s.1.phase = .held ∧
      s.1.permits true (.completion ⟨0⟩ ⟨5, cqeMore⟩ id) = true ∧
      s.2 = ⟨some first, some second⟩ := by
  obtain ⟨s, hreach, htest⟩ := Reach.of_replay fitting fitting_spec
    (.start ⟨⟨⟨.fd 3⟩, {}, 4, rfl⟩, rfl⟩) (polledBy first second) _ htest
  simp only [Bool.and_eq_true, decide_eq_true_eq] at htest
  exact ⟨s, hreach, htest.1.1, htest.1.2, htest.2⟩

/-- The same waker twice is woken. -/
theorem same_waker_woken :
    ∃ (s life' : Lifetime AcceptMulti Opcode Nat Cancellation)
      (outcome : Outcome (Except OsError Int32) Nat Cancellation),
      s.exec AcceptMulti.op (.completion ⟨0⟩ ⟨5, cqeMore⟩ id) = .ok (life', outcome) ∧
      Effect.wake 7 ∈ outcome.effects := by
  obtain ⟨s, hreach, hheld, hpermits, hasked⟩ := reach_polledBy 7 7 rfl
  obtain ⟨life', outcome, hok, hwoken⟩ := recent_waker_woken_iff hreach hheld hpermits
  refine ⟨s.1, life', outcome, hok, hwoken.mpr ?_ 7 (by rw [hasked])⟩
  simp [hasked]

/-- Another waker than the first is not. -/
theorem moved_waker_not_woken :
    ∃ (s : Lifetime AcceptMulti Opcode Nat Cancellation × Asked Nat)
      (life' : Lifetime AcceptMulti Opcode Nat Cancellation)
      (outcome : Outcome (Except OsError Int32) Nat Cancellation),
      Reach (askedMachine AcceptMulti.op true) Fits s ∧ s.1.phase = .held ∧
      s.2.last = some 8 ∧ s.1.permits true (.completion ⟨0⟩ ⟨5, cqeMore⟩ id) = true ∧
      s.1.exec AcceptMulti.op (.completion ⟨0⟩ ⟨5, cqeMore⟩ id) = .ok (life', outcome) ∧
      Effect.wake 8 ∉ outcome.effects := by
  obtain ⟨s, hreach, hheld, hpermits, hasked⟩ := reach_polledBy 7 8 rfl
  obtain ⟨course, hof, hasks⟩ := Asks.of_reach hreach
  have hpermits' := hpermits
  simp only [permits, Bool.and_eq_true, beq_iff_eq] at hpermits'
  obtain ⟨stored, pending, life', rfl, hok, -⟩ :=
    hof.completed AcceptMulti.op ⟨5, cqeMore⟩ id hheld hpermits'.1 hpermits'.2
  have hstored : s.2.submitter = some stored := hasks
  refine ⟨s, life', _, hreach, hheld, by rw [hasked], hpermits, hok, ?_⟩
  rw [hasked] at hstored
  obtain rfl := Option.some.inj hstored
  simp

end Lifetime

end Inel.Reactor
