import Inel.Op.Net
import Inel.Reactor.Lifetime

/-!
# The op is given away once

A submission that is dropped has given its op away exactly once, provided that no
poll of it as a future was answered with a result that announces more. Such a
poll gives the op to `Op::result` and leaves the submission as if it still owned
it.
-/

namespace Inel.Reactor

open Transitions

/-- The uses of the op so far, and whether a future's poll was answered with a
result that announces more. -/
structure Usage where
  uses : List OpUse
  answeredMore : Bool
deriving DecidableEq, Repr

namespace Usage

def entries (usage : Usage) : Nat := usage.uses.count .entry

def gives (usage : Usage) : Nat := usage.uses.countP (· ≠ .entry)

def record (usage : Usage) (uses : List OpUse) (more : Bool) : Usage :=
  ⟨usage.uses ++ uses, usage.answeredMore || more⟩

/-- The op was given away `n` times, and too often if a future's poll was
answered with more to come. -/
def Counts (usage : Usage) (n : Nat) : Prop :=
  if usage.answeredMore then n < usage.gives else usage.gives = n

@[simp] theorem entries_record (usage : Usage) (uses : List OpUse) (more : Bool) :
    (usage.record uses more).entries = usage.entries + uses.count .entry :=
  List.count_append

theorem counts_iff {usage : Usage} {n : Nat} (h : usage.Counts n) :
    usage.gives = n ↔ usage.answeredMore = false := by
  unfold Counts at h
  cases hmore : usage.answeredMore with
  | true =>
      rw [hmore, if_pos rfl] at h
      simp only [Bool.true_eq_false, iff_false]
      omega
  | false => simpa [hmore] using h

theorem Counts.record {usage : Usage} {n : Nat} (h : usage.Counts n) (uses : List OpUse) :
    (usage.record uses false).Counts (n + uses.countP (· ≠ .entry)) := by
  unfold Counts at h ⊢
  simp only [Usage.record, Bool.or_false, gives] at h ⊢
  rw [List.countP_append]
  split at h
  · next hmore =>
      rw [if_pos hmore]
      omega
  · next hmore =>
      rw [if_neg hmore, h]

theorem Counts.recordMore {usage : Usage} {n : Nat} (h : usage.Counts n) {uses : List OpUse}
    (huses : uses.countP (· ≠ .entry) = 1) : (usage.record uses true).Counts n := by
  unfold Counts at h ⊢
  simp only [Usage.record, Bool.or_true, gives, if_true] at h ⊢
  rw [List.countP_append, huses]
  split at h <;> omega

end Usage

namespace Lifetime

variable {O E Out W C : Type}

/-- A future's poll that finds a result which announces more. -/
def answersMore (life : Lifetime O E W C) : Move O E W C → Bool
  | .poll _ _ =>
      match life.submission.state with
      | .submitted key => (life.ring.unread key).head?.any (·.hasMore)
      | _ => false
  | _ => false

def usageMachine (op : MultiOp O E Out C) (streams : Bool) :
    Machine (Lifetime O E W C × Usage) (Move O E W C) Panic :=
  watched op streams ⟨[], false⟩ fun usage life move outcome =>
    usage.record outcome.uses (life.answersMore move)

/-- The state says whether the op is still there. -/
def UsageInv (life : Lifetime O E W C) (usage : Usage) : Prop :=
  match life.phase, life.submission.state with
  | .held, .initial => usage = ⟨[], false⟩
  | .held, .submitted _ => usage.entries = 1 ∧ usage.Counts 0
  | .held, .completed => usage.entries = 1 ∧ usage.Counts 1
  | .dropped, _ => usage.entries ≤ 1 ∧ usage.Counts 1
  | .panicked, _ => True

variable {op : MultiOp O E Out C} {life life' : Lifetime O E W C} {usage : Usage}

theorem UsageInv.poll {slot : Nat} {waker : W} {outcome : Outcome Out W C}
    (h : UsageInv life usage) (hheld : life.phase = .held)
    (hok : life.exec op (.poll slot waker) = .ok (life', outcome)) :
    UsageInv life' (usage.record outcome.uses (life.answersMore (.poll slot waker))) := by
  obtain ⟨polled, hpoll, hret⟩ := bind_eq_ok hok
  obtain ⟨rfl, rfl⟩ := Prod.mk.inj (Except.ok.inj hret)
  rcases Submission.poll_eq_ok hpoll with ⟨hstate, key, ring', -, rfl⟩ |
    ⟨key, ran, hstate, hcheck, rfl⟩
  · simp only [UsageInv, hheld, hstate] at h
    subst h
    simp [UsageInv, hheld, answersMore, hstate, Usage.record,
      Usage.entries, Usage.Counts, Usage.gives]
  · simp only [UsageInv, hheld, hstate] at h
    have hmore : life.answersMore (.poll slot waker) = ran.value.any (·.hasMore) := by
      simp only [answersMore, hstate, Ring.checkResult_value hcheck]
    rw [hmore]
    cases hvalue : ran.value with
    | none =>
        have hcounts := h.2.record []
        simpa [UsageInv, hheld, Submission.answered, h.1]
          using hcounts
    | some result =>
        cases hresult : op.result life.submission.op result with
        | error panic =>
            simp [UsageInv, Submission.answered, hresult]
        | ok value =>
            cases hlast : result.hasMore with
            | true =>
                have hcounts := h.2.recordMore (show [OpUse.result].countP (· ≠ .entry) = 1 by rfl)
                simpa [UsageInv, hheld, Submission.answered, hresult, hlast, h.1] using hcounts
            | false =>
                have hcounts := h.2.record [.result]
                simpa [UsageInv, hheld, Submission.answered, hresult, hlast, h.1] using hcounts

theorem UsageInv.pollNext {slot : Nat} {waker : W} {outcome : Outcome Out W C}
    (h : UsageInv life usage) (hheld : life.phase = .held)
    (hok : life.exec op (.pollNext slot waker) = .ok (life', outcome)) :
    UsageInv life' (usage.record outcome.uses false) := by
  obtain ⟨polled, hpoll, hret⟩ := bind_eq_ok hok
  obtain ⟨rfl, rfl⟩ := Prod.mk.inj (Except.ok.inj hret)
  rcases Submission.pollNext_eq_ok hpoll with ⟨hstate, key, ring', -, rfl⟩ |
    ⟨key, ran, hstate, hcheck, rfl⟩ | ⟨hstate, rfl⟩
  · simp only [UsageInv, hheld, hstate] at h
    subst h
    simp [UsageInv, hheld, Usage.record, Usage.entries,
      Usage.Counts, Usage.gives]
  · simp only [UsageInv, hheld, hstate] at h
    cases hvalue : ran.value with
    | none =>
        have hcounts := h.2.record []
        simpa [UsageInv, hheld, Submission.answeredNext, h.1]
          using hcounts
    | some result =>
        cases hnext : op.next life.submission.op result with
        | error panic =>
            simp [UsageInv, Submission.answeredNext, hnext]
        | ok value =>
            cases hlast : result.hasMore with
            | true =>
                have hcounts := h.2.record []
                simpa [UsageInv, hheld, Submission.answeredNext, hnext, hlast, h.1] using hcounts
            | false =>
                have hcounts := h.2.record [.drop]
                simpa [UsageInv, hheld, Submission.answeredNext, hnext, hlast, h.1] using hcounts
  · simp only [UsageInv, hheld, hstate] at h
    have hcounts := h.2.record []
    simpa [UsageInv, hheld, hstate, h.1] using hcounts

theorem UsageInv.drop {outcome : Outcome Out W C} (h : UsageInv life usage)
    (hheld : life.phase = .held) (hok : life.exec op .drop = .ok (life', outcome)) :
    UsageInv life' (usage.record outcome.uses false) := by
  obtain ⟨ran, hdrop, hret⟩ := bind_eq_ok hok
  obtain ⟨rfl, rfl⟩ := Prod.mk.inj (Except.ok.inj hret)
  rcases Submission.drop_eq_ok hdrop with ⟨hstate, rfl⟩ | ⟨key, done, hstate, -, rfl⟩ |
    ⟨hstate, rfl⟩ <;> simp only [UsageInv, hheld, hstate] at h
  · subst h
    simp [UsageInv, Usage.record, Usage.entries, Usage.Counts, Usage.gives]
  · have hcounts := h.2.record [.cancel]
    simpa [UsageInv, h.1] using hcounts
  · have hcounts := h.2.record []
    simpa [UsageInv, h.1] using hcounts

/-- Completions and other callers leave the op where it is. -/
theorem UsageInv.untouched (h : UsageInv life usage) (hphase : life'.phase = life.phase)
    (hstate : life'.submission.state = life.submission.state) :
    UsageInv life' (usage.record [] false) := by
  have hsame : usage.record [] false = usage := by
    simp [Usage.record]
  rw [hsame]
  unfold UsageInv
  rw [hphase, hstate]
  exact h

theorem UsageInv.step {streams : Bool} {move : Move O E W C} {outcome : Outcome Out W C}
    (h : UsageInv life usage) (hpermits : life.permits streams move = true)
    (hok : life.exec op move = .ok (life', outcome)) :
    UsageInv life' (usage.record outcome.uses (life.answersMore move)) := by
  cases move with
  | poll slot waker =>
      simp only [permits, canPoll, Bool.and_eq_true, beq_iff_eq] at hpermits
      exact h.poll hpermits.1 hok
  | pollNext slot waker =>
      simp only [permits, canPoll, Bool.and_eq_true, beq_iff_eq] at hpermits
      exact h.pollNext hpermits.2.1 hok
  | drop =>
      simp only [permits, beq_iff_eq] at hpermits
      exact h.drop hpermits hok
  | completion key result fill =>
      obtain ⟨ran, -, hret⟩ := bind_eq_ok hok
      obtain ⟨rfl, rfl⟩ := Prod.mk.inj (Except.ok.inj hret)
      exact h.untouched rfl rfl
  | others call =>
      obtain ⟨ring', -, hret⟩ := bind_eq_ok hok
      obtain ⟨rfl, rfl⟩ := Prod.mk.inj (Except.ok.inj hret)
      exact h.untouched rfl rfl

theorem UsageInv.of_reach {streams : Bool} {s : Lifetime O E W C × Usage}
    (h : Reach (usageMachine op streams) Any s) : UsageInv s.1 s.2 := by
  refine Reach.invariant (I := fun s => UsageInv s.1 s.2) ?_ ?_ h
  · rintro ⟨life, usage⟩ ⟨⟨value, options, entries, rfl⟩, rfl⟩
    rfl
  · rintro ⟨life, usage⟩ move ⟨life', usage'⟩ hinv hpermits - hok
    obtain ⟨outcome, hexec, rfl⟩ := watched_step hok
    exact hinv.step hpermits hexec

/-- A dropped submission called `Op::entry` at most once and gave the op away
exactly once if and only if no future's poll was answered with more to come. -/
theorem op_given_away_once_iff {streams : Bool} {s : Lifetime O E W C × Usage}
    (h : Reach (usageMachine op streams) Any s) (hdropped : s.1.phase = .dropped) :
    s.2.entries ≤ 1 ∧ s.2.gives = 1 ↔ s.2.answeredMore = false := by
  have hinv := UsageInv.of_reach h
  simp only [UsageInv, hdropped] at hinv
  rw [Usage.counts_iff hinv.2]
  exact ⟨And.right, fun hnone => ⟨hinv.1, hnone⟩⟩

def listening : Lifetime AcceptMulti Opcode Unit Cancellation × Usage :=
  (fresh ⟨.fd 3⟩ {} 4, ⟨[], false⟩)

theorem reach_listening : Reach (usageMachine AcceptMulti.op true) Any listening :=
  .start ⟨⟨⟨.fd 3⟩, {}, 4, rfl⟩, rfl⟩

/-- A stream takes one connection and is dropped. -/
theorem streamed_op_given_away_once :
    ∃ s : Lifetime AcceptMulti Opcode Unit Cancellation × Usage,
      (s.2.entries ≤ 1 ∧ s.2.gives = 1) ∧ s.2.uses = [.entry, .cancel] := by
  obtain ⟨s, hreach, htest⟩ := Reach.of_replay (fun s move => s.1.permits true move)
    (fun _ _ h => ⟨h, trivial⟩) reach_listening
    [.poll 0 (), .completion ⟨0⟩ ⟨5, cqeMore⟩ id, .pollNext 0 (), .drop]
    (fun s => s.1.phase = .dropped && s.2 = ⟨[.entry, .cancel], false⟩) rfl
  simp only [Bool.and_eq_true, decide_eq_true_eq] at htest
  obtain ⟨hdropped, husage⟩ := htest
  refine ⟨s, (op_given_away_once_iff hreach hdropped).mpr ?_, ?_⟩
  · rw [husage]
  · rw [husage]

/-- Awaited as a future, a multishot accept is given to `Op::result` and then, when
it is dropped, to `Op::cancel`. -/
theorem awaited_multishot_given_away_twice :
    ∃ s : Lifetime AcceptMulti Opcode Unit Cancellation × Usage,
      Reach (usageMachine AcceptMulti.op true) Any s ∧ s.1.phase = .dropped ∧
      s.2.uses = [.entry, .result, .cancel] ∧ ¬ (s.2.entries ≤ 1 ∧ s.2.gives = 1) := by
  obtain ⟨s, hreach, htest⟩ := Reach.of_replay (fun s move => s.1.permits true move)
    (fun _ _ h => ⟨h, trivial⟩) reach_listening
    [.poll 0 (), .completion ⟨0⟩ ⟨5, cqeMore⟩ id, .poll 0 (), .drop]
    (fun s => s.1.phase = .dropped && s.2 = ⟨[.entry, .result, .cancel], true⟩) rfl
  simp only [Bool.and_eq_true, decide_eq_true_eq] at htest
  obtain ⟨hdropped, husage⟩ := htest
  refine ⟨s, hreach, hdropped, ?_, ?_⟩
  · rw [husage]
  · rw [husage]
    decide

end Lifetime

end Inel.Reactor
