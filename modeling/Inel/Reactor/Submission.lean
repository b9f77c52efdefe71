import Inel.Op.Basic
import Inel.Reactor.CompletionSpec
import Inel.Reactor.Ring

/-!
# Submissions

A submission owns an op and drives it to completion on a ring, as a future or as
a stream, and cancels it when it is dropped. What an op builds and decodes is a
parameter. The op sits in a `ManuallyDrop`: giving it away leaves the bits where
they were, so each use of the op is reported beside the outcome.
-/

namespace Inel.Reactor

open Transitions (bind_eq_ok)

/-- A call of `Op::entry`, or the op given away: to `Op::result`, to `Op::cancel`
or to its destructor. -/
inductive OpUse
  | entry
  | result
  | cancel
  | drop
deriving DecidableEq, Repr

inductive Poll (Out : Type)
  | pending
  | ready (value : Out)
deriving DecidableEq, Repr

inductive SubmissionState
  | initial
  | submitted (key : Key)
  | completed
deriving DecidableEq, Repr

structure Submission (O : Type) where
  op : O
  state : SubmissionState
deriving DecidableEq, Repr

/-- `value` is an error where the op panicked over the result it was given: the
result was taken from the ring by then, and `take` left `Initial` behind. -/
structure Polled (Out O E W C : Type) where
  value : Except Panic (Poll Out)
  submission : Submission O
  ring : Ring E W C
  uses : List OpUse

/-- The results that arrived for a key and were not taken, oldest first. -/
def Ring.unread {E W C : Type} (ring : Ring E W C) (key : Key) : List RingResult :=
  match ring.completions.mailbox key.asUsize with
  | some (.live pending _) => pending
  | _ => []

theorem Completion.takeResult_value {W C : Type} {completion : Completion W C}
    {queues : ResultQueues} {ran : Ran (Option RingResult) (Completion W C × ResultQueues) W C}
    (h : completion.takeResult queues = .ok ran) :
    ran.value = match completion.mailbox queues with
      | some (.live pending _) => pending.head?
      | _ => none := by
  cases completion with
  | multiple waker handle more =>
      have hget : ∀ queue, queues.get handle = .ok queue → queues.contents handle = queue := by
        intro queue hqueue
        unfold ResultQueues.get at hqueue
        split at hqueue
        · next stored hstored =>
            rw [ResultQueues.contents, hstored, ← Except.ok.inj hqueue]
            rfl
        · simp at hqueue
      obtain ⟨queue, hqueue, hrest⟩ := bind_eq_ok h
      obtain ⟨rest, -, hend⟩ := bind_eq_ok hrest
      rw [mailbox, hget queue hqueue]
      split at hend
      · obtain ⟨queues', -, hret⟩ := bind_eq_ok hend
        rw [← Except.ok.inj hret]
      · rw [← Except.ok.inj hend]
  | _ =>
      simp only [takeResult] at h
      rw [← Except.ok.inj h]
      rfl

theorem Ring.checkResult_value {E W C : Type} {ring : Ring E W C} {key : Key}
    {ran : Ran (Option RingResult) (Ring E W C) W C} (h : ring.checkResult key = .ok ran) :
    ran.value = (ring.unread key).head? := by
  obtain ⟨completions, hresult, -⟩ := checkResult_eq_ok h
  unfold Ring.unread CompletionSet.mailbox
  unfold CompletionSet.result CompletionSet.withCompletion at hresult
  split at hresult
  · simp at hresult
  · next completion hget =>
      obtain ⟨taken, htaken, hret⟩ := bind_eq_ok hresult
      have hvalue : taken.value = ran.value := congrArg Ran.value (Except.ok.inj hret)
      rw [← hvalue, Completion.takeResult_value htaken, hget, Option.bind_some]
      split <;> rfl

namespace Submission

variable {O E Out W C : Type}

def new (op : O) : Submission O := ⟨op, .initial⟩

def poll (op : Op O E Out C) (sub : Submission O) (ring : Ring E W C) (slot : Nat) (waker : W) :
    Except Panic (Polled Out O E W C) :=
  match sub.state with
  | .initial => do
      let (request, value) := op.entry sub.op
      let (key, ring) ← ring.submit request slot waker
      return ⟨.ok .pending, ⟨value, .submitted key⟩, ring, [.entry]⟩
  | .submitted key => do
      match ← ring.checkResult key with
      | ⟨none, ring, _⟩ => return ⟨.ok .pending, ⟨sub.op, .submitted key⟩, ring, []⟩
      | ⟨some result, ring, _⟩ =>
          let next := if result.hasMore then .submitted key else .completed
          match op.result sub.op result with
          | .ok value => return ⟨.ok (.ready value), ⟨sub.op, next⟩, ring, [.result]⟩
          | .error panic => return ⟨.error panic, ⟨sub.op, .initial⟩, ring, [.result]⟩
  | .completed => .error (.panicked "Polled already completed Submission")

def isTerminated (sub : Submission O) : Bool := sub.state == .completed

def pollNext (op : MultiOp O E Out C) (sub : Submission O) (ring : Ring E W C) (slot : Nat)
    (waker : W) : Except Panic (Polled (Option Out) O E W C) :=
  match sub.state with
  | .initial => do
      let (request, value) := op.entry sub.op
      let (key, ring) ← ring.submit request slot waker
      return ⟨.ok .pending, ⟨value, .submitted key⟩, ring, [.entry]⟩
  | .submitted key => do
      match ← ring.checkResult key with
      | ⟨none, ring, _⟩ => return ⟨.ok .pending, ⟨sub.op, .submitted key⟩, ring, []⟩
      | ⟨some result, ring, _⟩ =>
          match op.next sub.op result with
          | .error panic => return ⟨.error panic, ⟨sub.op, .initial⟩, ring, []⟩
          | .ok value =>
              if result.hasMore then
                return ⟨.ok (.ready (some value)), ⟨sub.op, .submitted key⟩, ring, []⟩
              else
                return ⟨.ok (.ready (some value)), ⟨sub.op, .completed⟩, ring, [.drop]⟩
  | .completed => .ok ⟨.ok (.ready none), ⟨sub.op, .completed⟩, ring, []⟩

/-- `PinnedDrop::drop`, which cancels. -/
def drop (op : Op O E Out C) (sub : Submission O) (ring : Ring E W C) :
    Except Panic (Ran (List OpUse) (Ring E W C) W C) :=
  match sub.state with
  | .initial => .ok ⟨[.drop], ring, []⟩
  | .submitted key => do
      let ran ← ring.cancel key (op.entryCancel key.asU64) (op.cancel sub.op)
      return ⟨[.cancel], ran.state, ran.effects⟩
  | .completed => .ok ⟨[], ring, []⟩

/-! ## What a poll that returns did -/

/-- What a future's poll makes of the oldest result of its key. -/
def answered (op : Op O E Out C) (sub : Submission O) (key : Key) (ring : Ring E W C) :
    Option RingResult → Polled Out O E W C
  | none => ⟨.ok .pending, ⟨sub.op, .submitted key⟩, ring, []⟩
  | some result =>
      match op.result sub.op result with
      | .error panic => ⟨.error panic, ⟨sub.op, .initial⟩, ring, [.result]⟩
      | .ok value => ⟨.ok (.ready value),
          ⟨sub.op, if result.hasMore then .submitted key else .completed⟩, ring, [.result]⟩

def answeredNext (op : MultiOp O E Out C) (sub : Submission O) (key : Key) (ring : Ring E W C) :
    Option RingResult → Polled (Option Out) O E W C
  | none => ⟨.ok .pending, ⟨sub.op, .submitted key⟩, ring, []⟩
  | some result =>
      match op.next sub.op result with
      | .error panic => ⟨.error panic, ⟨sub.op, .initial⟩, ring, []⟩
      | .ok value => ⟨.ok (.ready (some value)),
          ⟨sub.op, if result.hasMore then .submitted key else .completed⟩, ring,
          if result.hasMore then [] else [.drop]⟩

section Returned

variable {sub : Submission O} {ring : Ring E W C} {slot : Nat} {waker : W}

/-- A future's poll submits the entry, or gives the op the oldest result if there
is one. -/
theorem poll_eq_ok {op : Op O E Out C} {polled : Polled Out O E W C}
    (h : sub.poll op ring slot waker = .ok polled) :
    (sub.state = .initial ∧ ∃ key ring',
      ring.submit (op.entry sub.op).1 slot waker = .ok (key, ring') ∧
      polled = ⟨.ok .pending, ⟨(op.entry sub.op).2, .submitted key⟩, ring', [.entry]⟩) ∨
    ∃ key ran, sub.state = .submitted key ∧ ring.checkResult key = .ok ran ∧
      polled = sub.answered op key ran.state ran.value := by
  cases hstate : sub.state with
  | initial =>
      simp only [poll, hstate] at h
      obtain ⟨pair, hsubmit, hret⟩ := bind_eq_ok h
      exact Or.inl ⟨rfl, pair.1, pair.2, hsubmit, (Except.ok.inj hret).symm⟩
  | submitted key =>
      simp only [poll, hstate] at h
      obtain ⟨ran, hcheck, hret⟩ := bind_eq_ok h
      refine Or.inr ⟨key, ran, rfl, hcheck, ?_⟩
      obtain ⟨value, ring', effects⟩ := ran
      cases value with
      | none => exact (Except.ok.inj hret).symm
      | some result =>
          simp only [answered]
          cases hresult : op.result sub.op result with
          | error panic =>
              simp only [hresult] at hret
              exact (Except.ok.inj hret).symm
          | ok value =>
              simp only [hresult] at hret
              exact (Except.ok.inj hret).symm
  | completed => simp [poll, hstate] at h

/-- A stream's poll gives the op away only with its last result, and returns
`None` from then on. -/
theorem pollNext_eq_ok {op : MultiOp O E Out C} {polled : Polled (Option Out) O E W C}
    (h : sub.pollNext op ring slot waker = .ok polled) :
    (sub.state = .initial ∧ ∃ key ring',
      ring.submit (op.entry sub.op).1 slot waker = .ok (key, ring') ∧
      polled = ⟨.ok .pending, ⟨(op.entry sub.op).2, .submitted key⟩, ring', [.entry]⟩) ∨
    (∃ key ran, sub.state = .submitted key ∧ ring.checkResult key = .ok ran ∧
      polled = sub.answeredNext op key ran.state ran.value) ∨
    sub.state = .completed ∧ polled = ⟨.ok (.ready none), sub, ring, []⟩ := by
  cases hstate : sub.state with
  | initial =>
      simp only [pollNext, hstate] at h
      obtain ⟨pair, hsubmit, hret⟩ := bind_eq_ok h
      exact Or.inl ⟨rfl, pair.1, pair.2, hsubmit, (Except.ok.inj hret).symm⟩
  | submitted key =>
      simp only [pollNext, hstate] at h
      obtain ⟨ran, hcheck, hret⟩ := bind_eq_ok h
      refine Or.inr (Or.inl ⟨key, ran, rfl, hcheck, ?_⟩)
      obtain ⟨value, ring', effects⟩ := ran
      cases value with
      | none => exact (Except.ok.inj hret).symm
      | some result =>
          simp only [answeredNext]
          cases hnext : op.next sub.op result with
          | error panic =>
              simp only [hnext] at hret
              exact (Except.ok.inj hret).symm
          | ok value =>
              simp only [hnext] at hret
              cases hmore : result.hasMore with
              | true =>
                  rw [hmore] at hret
                  exact (Except.ok.inj hret).symm
              | false =>
                  rw [hmore] at hret
                  exact (Except.ok.inj hret).symm
  | completed =>
      have hsub : (⟨sub.op, .completed⟩ : Submission O) = sub := by
        rw [← hstate]
      simp only [pollNext, hstate, hsub] at h
      exact Or.inr (Or.inr ⟨rfl, (Except.ok.inj h).symm⟩)

theorem drop_eq_ok {op : Op O E Out C} {ran : Ran (List OpUse) (Ring E W C) W C}
    (h : sub.drop op ring = .ok ran) :
    (sub.state = .initial ∧ ran = ⟨[.drop], ring, []⟩) ∨
    (∃ key done, sub.state = .submitted key ∧
      ring.cancel key (op.entryCancel key.asU64) (op.cancel sub.op) = .ok done ∧
      ran = ⟨[.cancel], done.state, done.effects⟩) ∨
    sub.state = .completed ∧ ran = ⟨[], ring, []⟩ := by
  cases hstate : sub.state with
  | initial =>
      simp only [drop, hstate] at h
      exact Or.inl ⟨rfl, (Except.ok.inj h).symm⟩
  | submitted key =>
      simp only [drop, hstate] at h
      obtain ⟨done, hdone, hret⟩ := bind_eq_ok h
      exact Or.inr (Or.inl ⟨key, done, rfl, hdone, (Except.ok.inj hret).symm⟩)
  | completed =>
      simp only [drop, hstate] at h
      exact Or.inr (Or.inr ⟨rfl, (Except.ok.inj h).symm⟩)

end Returned

end Submission

end Inel.Reactor
