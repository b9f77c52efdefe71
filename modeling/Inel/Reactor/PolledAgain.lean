import Inel.Reactor.Lifetime

/-!
# Submissions polled once too often

A future's poll takes the state out, which leaves `Initial` behind, and puts the
next one in as it returns. A poll that panics does not get there. If someone
catches the panic, a submission that was completed is one that was never polled.
-/

namespace Inel.Reactor

open Transitions

variable {O E Out W C : Type}

/-- What was there, and what is left. -/
def SubmissionState.take (state : SubmissionState) : SubmissionState × SubmissionState :=
  (state, .initial)

namespace Submission

variable {op : Op O E Out C} {sub : Submission O} {ring : Ring E W C} {slot : Nat} {waker : W}

/-- What a poll that panics leaves, since it does not come to `update`. -/
def unwound (op : Op O E Out C) (sub : Submission O) : Submission O :=
  match sub.state.take with
  | (.initial, left) => ⟨(op.entry sub.op).2, left⟩
  | (_, left) => ⟨sub.op, left⟩

theorem unwound_of_completed (h : sub.state = .completed) :
    sub.unwound op = ⟨sub.op, .initial⟩ := by
  simp [unwound, SubmissionState.take, h]

/-- A completed submission says that it is, makes no entry, leaves the ring alone
and has nothing to drop. -/
structure StaysCompleted (op : Op O E Out C) (sub : Submission O) (ring : Ring E W C) : Prop where
  terminated : sub.isTerminated = true
  idle : ∀ slot waker polled, sub.poll op ring slot waker = .ok polled →
    polled.uses = [] ∧ polled.ring = ring
  dropped : ∀ ran, sub.drop op ring = .ok ran → ran.value = [] ∧ ran.state = ring

theorem staysCompleted (h : sub.state = .completed) : sub.StaysCompleted op ring where
  terminated := by simp [isTerminated, h]
  idle := by
    intro slot waker polled hpoll
    simp [poll, h] at hpoll
  dropped := by
    intro ran hdrop
    simp only [drop, h] at hdrop
    obtain rfl := Except.ok.inj hdrop
    exact ⟨rfl, rfl⟩

end Submission

/-! ## Runs on which panics are caught -/

def Move.isPoll : Move O E W C → Bool
  | .poll _ _ => true
  | _ => false

namespace Lifetime

/-- A submission that has made an entry is owed its completions. -/
def resumed (life after : Lifetime O E W C) (outcome : Outcome Out W C) : Lifetime O E W C :=
  { after with
    phase := if after.phase = .panicked then life.phase else after.phase,
    owed := after.owed || outcome.uses.contains .entry }

/-- Whoever polls the submission catches the panics of the op, and the one of a
submission that is completed. -/
def execCatching (op : MultiOp O E Out C) (life : Lifetime O E W C) (move : Move O E W C) :
    Except Panic (Lifetime O E W C × Outcome Out W C) :=
  match life.exec op move with
  | .ok (after, outcome) => .ok (life.resumed after outcome, outcome)
  | .error panic =>
      if move.isPoll && life.submission.isTerminated then
        .ok ({ life with submission := life.submission.unwound op.toOp },
          ⟨some (.error panic), [], []⟩)
      else .error panic

/-- The uses of the op are collected. -/
def catchingMachine (op : MultiOp O E Out C) (streams : Bool) :
    Machine (Lifetime O E W C × List OpUse) (Move O E W C) Panic :=
  Transitions.watched (fun life => ∃ value options entries, life = fresh value options entries)
    (fun life move => life.permits streams move = true) (execCatching op) []
    fun uses _ _ outcome => uses ++ outcome.uses

/-- The op was asked for an entry once there is a key, and given away by the time
the submission is completed. -/
structure Spent (state : SubmissionState) (uses : List OpUse) : Prop where
  entry : state ≠ .initial → .entry ∈ uses
  given : state = .completed → ∃ use ∈ uses, use ≠ .entry

variable {op : MultiOp O E Out C} {life after : Lifetime O E W C} {move : Move O E W C}
  {outcome : Outcome Out W C} {uses : List OpUse}

theorem Spent.mono {state : SubmissionState} (h : Spent state uses) (more : List OpUse) :
    Spent state (uses ++ more) where
  entry := fun hne => List.mem_append_left _ (h.entry hne)
  given := by
    intro hcompleted
    obtain ⟨use, hmem, hne⟩ := h.given hcompleted
    exact ⟨use, List.mem_append_left _ hmem, hne⟩

theorem Spent.initial (uses : List OpUse) : Spent .initial uses where
  entry := fun hne => absurd rfl hne
  given := fun heq => absurd heq (by simp)

theorem Spent.submitted {key : Key} (h : .entry ∈ uses) : Spent (.submitted key) uses where
  entry := fun _ => h
  given := fun heq => absurd heq (by simp)

theorem Spent.last {key : Key} {use : OpUse} {state : SubmissionState}
    (h : Spent (.submitted key) uses) (huse : use ≠ .entry) : Spent state (uses ++ [use]) where
  entry := fun _ => List.mem_append_left _ (h.entry (by simp))
  given := fun _ => ⟨use, by simp, huse⟩

theorem Spent.poll {slot : Nat} {waker : W} (h : Spent life.submission.state uses)
    (hok : life.exec op (.poll slot waker) = .ok (after, outcome)) :
    Spent after.submission.state (uses ++ outcome.uses) := by
  obtain ⟨polled, hpoll, hret⟩ := bind_eq_ok hok
  obtain ⟨rfl, rfl⟩ := Prod.mk.inj (Except.ok.inj hret)
  rcases Submission.poll_eq_ok hpoll with ⟨-, key, ring', -, rfl⟩ | ⟨key, ran, hstate, -, rfl⟩
  · exact Spent.submitted (by simp)
  · rw [hstate] at h
    cases hvalue : ran.value with
    | none => exact h.mono []
    | some result =>
        cases hresult : op.result life.submission.op result with
        | error panic =>
            simp only [Submission.answered, hresult, settled_error]
            exact Spent.initial _
        | ok value =>
            simp only [Submission.answered, hresult, settled_ok]
            exact h.last (by simp)

theorem Spent.pollNext {slot : Nat} {waker : W} (h : Spent life.submission.state uses)
    (hok : life.exec op (.pollNext slot waker) = .ok (after, outcome)) :
    Spent after.submission.state (uses ++ outcome.uses) := by
  obtain ⟨polled, hpoll, hret⟩ := bind_eq_ok hok
  obtain ⟨rfl, rfl⟩ := Prod.mk.inj (Except.ok.inj hret)
  rcases Submission.pollNext_eq_ok hpoll with ⟨-, key, ring', -, rfl⟩ |
    ⟨key, ran, hstate, -, rfl⟩ | ⟨hstate, rfl⟩
  · exact Spent.submitted (by simp)
  · rw [hstate] at h
    cases hvalue : ran.value with
    | none => exact h.mono []
    | some result =>
        cases hnext : op.next life.submission.op result with
        | error panic =>
            simp only [Submission.answeredNext, hnext, settled_error]
            exact Spent.initial _
        | ok value =>
            cases hmore : result.hasMore with
            | true =>
                simp only [Submission.answeredNext, hnext, settled_ok, hmore, if_true]
                exact h.mono []
            | false =>
                simp only [Submission.answeredNext, hnext, settled_ok, hmore]
                exact h.last (by simp)
  · exact h.mono []

theorem Spent.exec (h : Spent life.submission.state uses)
    (hok : life.exec op move = .ok (after, outcome)) :
    Spent after.submission.state (uses ++ outcome.uses) := by
  cases move with
  | poll slot waker => exact h.poll hok
  | pollNext slot waker => exact h.pollNext hok
  | drop =>
      obtain ⟨ran, -, hret⟩ := bind_eq_ok hok
      obtain ⟨rfl, rfl⟩ := Prod.mk.inj (Except.ok.inj hret)
      exact h.mono _
  | completion key result fill =>
      obtain ⟨ran, -, hret⟩ := bind_eq_ok hok
      obtain ⟨rfl, rfl⟩ := Prod.mk.inj (Except.ok.inj hret)
      exact h.mono _
  | others call =>
      obtain ⟨ring', -, hret⟩ := bind_eq_ok hok
      obtain ⟨rfl, rfl⟩ := Prod.mk.inj (Except.ok.inj hret)
      exact h.mono _

/-- A move is made as before, or a completed submission was polled and is left to
start anew. -/
theorem execCatching_eq_ok (hok : life.execCatching op move = .ok (after, outcome)) :
    (∃ ran, life.exec op move = .ok (ran, outcome) ∧ after = life.resumed ran outcome) ∨
    ∃ panic, life.exec op move = .error panic ∧ life.submission.state = .completed ∧
      after = { life with submission := ⟨life.submission.op, .initial⟩ } ∧
      outcome = ⟨some (.error panic), [], []⟩ := by
  unfold execCatching at hok
  cases hexec : life.exec op move with
  | ok ran =>
      simp only [hexec] at hok
      obtain ⟨rfl, rfl⟩ := Prod.mk.inj (Except.ok.inj hok)
      exact Or.inl ⟨ran.1, rfl, rfl⟩
  | error panic =>
      simp only [hexec] at hok
      split at hok
      · next hcond =>
          simp only [Bool.and_eq_true, Submission.isTerminated, beq_iff_eq] at hcond
          rw [Submission.unwound_of_completed hcond.2] at hok
          obtain ⟨rfl, rfl⟩ := Prod.mk.inj (Except.ok.inj hok)
          exact Or.inr ⟨panic, rfl, hcond.2, rfl, rfl⟩
      · simp at hok

theorem execCatching_of_completed (h : life.submission.state = .completed) (slot : Nat)
    (waker : W) : life.execCatching op (.poll slot waker) =
      .ok ({ life with submission := ⟨life.submission.op, .initial⟩ },
        ⟨some (.error (.panicked "Polled already completed Submission")), [], []⟩) := by
  have hpoll : life.exec op (.poll slot waker) =
      .error (.panicked "Polled already completed Submission") := by
    simp only [exec, Submission.poll, h]
    rfl
  have hterminated : life.submission.isTerminated = true := by
    simp [Submission.isTerminated, h]
  simp only [execCatching, hpoll, Move.isPoll, hterminated, Bool.and_self, if_true,
    Submission.unwound_of_completed h]

theorem Spent.of_reach {streams : Bool} {s : Lifetime O E W C × List OpUse}
    (h : Reach (catchingMachine op streams) Any s) : Spent s.1.submission.state s.2 := by
  refine Reach.invariant (I := fun s => Spent s.1.submission.state s.2) ?_ ?_ h
  · rintro ⟨life, uses⟩ ⟨⟨value, options, entries, rfl⟩, rfl⟩
    exact Spent.initial _
  · rintro ⟨life, uses⟩ move ⟨after, uses'⟩ hinv - - hok
    obtain ⟨outcome, hexec, rfl⟩ := watched_eq_ok hok
    rcases execCatching_eq_ok hexec with ⟨ran, hran, rfl⟩ | ⟨panic, -, -, rfl, rfl⟩
    · have hspent := hinv.exec hran
      exact hspent
    · exact Spent.initial _

/-- A caught panic of a completed submission leaves one that is not terminated,
asks its op for another entry, and gives away the op again as it is dropped. -/
theorem completed_polled_again {streams : Bool} {s : Lifetime O E W C × List OpUse}
    (h : Reach (catchingMachine op streams) Any s)
    (hcompleted : s.1.submission.state = .completed) (slot : Nat) (waker : W) :
    ∃ panic after, s.1.execCatching op (.poll slot waker) =
        .ok (after, ⟨some (.error panic), [], []⟩) ∧
      after.ring = s.1.ring ∧ .entry ∈ s.2 ∧ (∃ use ∈ s.2, use ≠ .entry) ∧
      after.submission.isTerminated = false ∧
      (∀ slot waker, after.submission.poll op.toOp after.ring slot waker = do
        let (key, ring) ← after.ring.submit (op.entry after.submission.op).1 slot waker
        return ⟨.ok .pending, ⟨(op.entry after.submission.op).2, .submitted key⟩, ring,
          [.entry]⟩) ∧
      after.submission.drop op.toOp after.ring = .ok ⟨[.drop], after.ring, []⟩ ∧
      s.1.submission.StaysCompleted op.toOp s.1.ring ∧
      ¬ after.submission.StaysCompleted op.toOp after.ring := by
  have hspent := Spent.of_reach h
  refine ⟨_, { s.1 with submission := ⟨s.1.submission.op, .initial⟩ },
    execCatching_of_completed hcompleted slot waker, rfl, hspent.entry (by simp [hcompleted]),
    hspent.given hcompleted, rfl, fun _ _ => rfl, rfl, Submission.staysCompleted hcompleted, ?_⟩
  intro hstays
  exact Bool.noConfusion hstays.terminated

def idle : Lifetime Nop Opcode Unit Cancellation × List OpUse := (fresh ⟨⟩ {} 4, [])

theorem reach_idle : Reach (catchingMachine Nop.op true) Any idle :=
  .start ⟨⟨⟨⟩, {}, 4, rfl⟩, rfl⟩

/-- A `Nop` that is awaited, and polled once more. -/
theorem nop_polled_again :
    ∃ s after : Lifetime Nop Opcode Unit Cancellation × List OpUse, s.2 = [.entry, .result] ∧
      after.2 = s.2 ∧ after.1.submission.isTerminated = false := by
  obtain ⟨s, hreach, htest⟩ := Reach.of_replay (fun s move => s.1.permits true move)
    (fun _ _ h => ⟨h, trivial⟩) reach_idle
    [.poll 0 (), .completion ⟨0⟩ ⟨0, 0⟩ id, .poll 0 ()]
    (fun s => s.1.submission.state = .completed && s.2 = [.entry, .result]) rfl
  simp only [Bool.and_eq_true, decide_eq_true_eq] at htest
  obtain ⟨panic, after, -, -, -, -, hterminated, -⟩ :=
    completed_polled_again hreach htest.1 0 ()
  exact ⟨s, (after, s.2), htest.2, rfl, hterminated⟩

/-- The submission of a `Nop` that was awaited is polled once more. It is not
terminated any longer; polled again it submits a second entry, and dropped it
drops the op that `Op::result` was given. -/
theorem nop_not_left_completed :
    ∃ s after again dropped : Lifetime Nop Opcode Unit Cancellation × List OpUse,
      Reach (catchingMachine Nop.op true) Any s ∧ s.1.submission.isTerminated = true ∧
      (catchingMachine Nop.op true).exec s (.poll 0 ()) = .ok after ∧
      after.1.submission.isTerminated = false ∧
      (catchingMachine Nop.op true).exec after (.poll 0 ()) = .ok again ∧
      again.2 = [.entry, .result, .entry] ∧ again.1.ring.active = 1 ∧
      (catchingMachine Nop.op true).exec after .drop = .ok dropped ∧
      dropped.2 = [.entry, .result, .drop] ∧
      ¬ after.1.submission.StaysCompleted Nop.op.toOp after.1.ring := by
  have hreach := Reach.replay (M := catchingMachine Nop.op true)
    (fun s move => s.1.permits true move) (fun _ _ h => ⟨h, trivial⟩) reach_idle
    [.poll 0 (), .completion ⟨0⟩ ⟨0, 0⟩ id, .poll 0 ()] rfl
  refine ⟨_, _, _, _, hreach, rfl, rfl, rfl, rfl, rfl, rfl, rfl, rfl, ?_⟩
  intro hstays
  exact absurd hstays.terminated (by decide)

end Lifetime

end Inel.Reactor
