import Inel.Base.Transition
import Inel.Reactor.Submission

/-!
# The life of a submission

A submission is polled, dropped and sent completions for its entry while others
use the same ring with keys of their own. The kernel completes the entry any
number of times, the last time without announcing more, and may write to the
memory of the op as it does so. Anything about a run beyond its states is left
to an observer.
-/

namespace Inel.Reactor

open SlotTable Transitions

/-- A call on the ring by anyone else. -/
inductive RingCall (E W C : Type)
  | submit (request : E) (slot : Nat) (waker : W)
  | submitDetached (request : E)
  | cancel (key : Key) (request : Option E) (cancel : C)
  | checkResult (key : Key)
  | enter
  | completion (cqe : Cqe)

namespace RingCall

variable {E W C : Type}

def key : RingCall E W C → Option Key
  | .cancel key _ _ => some key
  | .checkResult key => some key
  | .completion cqe => if cqe.userData == ignoreKey then none else some (Key.fromU64 cqe.userData)
  | _ => none

def run (ring : Ring E W C) : RingCall E W C → Except Panic (Ring E W C)
  | .submit request slot waker => do
      let (_, ring) ← ring.submit request slot waker
      return ring
  | .submitDetached request => ring.submitDetached request
  | .cancel key request cancellation => do
      let ran ← ring.cancel key request cancellation
      return ran.state
  | .checkResult key => do
      let ran ← ring.checkResult key
      return ran.state
  | .enter => .ok ring.submitAndWait.2
  | .completion cqe => do
      let ran ← ring.handleCompletion cqe
      return ran.state

/-- The slab picks the slot of an insertion. -/
def admitted (ring : Ring E W C) : RingCall E W C → Bool
  | .submit _ slot _ => ring.completions.slab.admits slot
  | _ => true

/-- An insertion finds fewer than `2 ^ 32` completions in the slab. -/
def fits (ring : Ring E W C) : RingCall E W C → Bool
  | .submit _ _ _ => ring.completions.slab.len < 2 ^ 32
  | _ => true

end RingCall

inductive Phase
  | held
  | dropped
  /-- The op panicked over a result it was given. -/
  | panicked
deriving DecidableEq, Repr

structure Lifetime (O E W C : Type) where
  submission : Submission O
  ring : Ring E W C
  phase : Phase
  /-- The last completion of the entry is still to come. -/
  owed : Bool

/-- What a move did besides the state it left: a poll's value, the uses of the
op, the callbacks run. -/
structure Outcome (Out W C : Type) where
  value : Option (Except Panic (Poll (Option Out)))
  uses : List OpUse
  effects : List (Effect W C)

inductive Move (O E W C : Type)
  | poll (slot : Nat) (waker : W)
  | pollNext (slot : Nat) (waker : W)
  | drop
  /-- The kernel writes to the op's memory and completes the entry. -/
  | completion (key : Key) (result : RingResult) (fill : O → O)
  | others (call : RingCall E W C)

def Poll.map {α β : Type} (f : α → β) : Poll α → Poll β
  | .pending => .pending
  | .ready value => .ready (f value)

namespace Lifetime

variable {O E Out W C γ : Type}

def settled {α : Type} (life : Lifetime O E W C) (polled : Polled α O E W C) :
    Lifetime O E W C :=
  { life with
    submission := polled.submission, ring := polled.ring,
    phase := if polled.value.isOk then life.phase else .panicked }

@[simp] theorem settled_ok {α : Type} (life : Lifetime O E W C) (value : Poll α)
    (submission : Submission O) (ring : Ring E W C) (uses : List OpUse) :
    life.settled ⟨.ok value, submission, ring, uses⟩ =
      { life with submission := submission, ring := ring } := by
  simp [settled, Except.isOk, Except.toBool]

@[simp] theorem settled_error {α : Type} (life : Lifetime O E W C) (panic : Panic)
    (submission : Submission O) (ring : Ring E W C) (uses : List OpUse) :
    life.settled (⟨.error panic, submission, ring, uses⟩ : Polled α O E W C) =
      { life with submission := submission, ring := ring, phase := .panicked } := by
  simp [settled, Except.isOk, Except.toBool]

def exec (op : MultiOp O E Out C) (life : Lifetime O E W C) :
    Move O E W C → Except Panic (Lifetime O E W C × Outcome Out W C)
  | .poll slot waker => do
      let polled ← life.submission.poll op.toOp life.ring slot waker
      return (life.settled polled, ⟨some (polled.value.map (.map some)), polled.uses, []⟩)
  | .pollNext slot waker => do
      let polled ← life.submission.pollNext op life.ring slot waker
      return (life.settled polled, ⟨some polled.value, polled.uses, []⟩)
  | .drop => do
      let ran ← life.submission.drop op.toOp life.ring
      return ({ life with ring := ran.state, phase := .dropped }, ⟨none, ran.value, ran.effects⟩)
  | .completion key result fill => do
      let ran ← life.ring.handleCompletion ⟨key.asU64, result⟩
      let submission := { life.submission with op := fill life.submission.op }
      return ({ life with submission := submission, ring := ran.state, owed := result.hasMore },
        ⟨none, [], ran.effects⟩)
  | .others call => do
      let ring ← call.run life.ring
      return ({ life with ring := ring }, ⟨none, [], []⟩)

/-- The key that is the submission's own for now. -/
def ownKey (life : Lifetime O E W C) : Option Key :=
  match life.submission.state with
  | .submitted key => if life.phase == .held || life.owed then some key else none
  | _ => none

/-- The first poll submits, to the slot that the slab picks. -/
def canPoll (life : Lifetime O E W C) (slot : Nat) : Bool :=
  life.phase == .held &&
    (life.submission.state != .initial || life.ring.completions.slab.admits slot)

/-- `streams` says that the op is a `MultiOp`, which only those are polled as. -/
def permits (streams : Bool) (life : Lifetime O E W C) : Move O E W C → Bool
  | .poll slot _ => life.canPoll slot
  | .pollNext slot _ => streams && life.canPoll slot
  | .drop => life.phase == .held
  | .completion key _ _ => life.submission.state == .submitted key && life.owed
  | .others call => call.admitted life.ring && (life.ownKey.all fun own => call.key != some own)

/-- An insertion finds fewer than `2 ^ 32` completions in the slab. -/
def fits (life : Lifetime O E W C) : Move O E W C → Bool
  | .poll _ _ => life.submission.state != .initial || life.ring.completions.slab.len < 2 ^ 32
  | .pollNext _ _ => life.submission.state != .initial || life.ring.completions.slab.len < 2 ^ 32
  | .others call => call.fits life.ring
  | _ => true

def Fits (s : Lifetime O E W C × γ) (move : Move O E W C) : Prop := s.1.fits move = true

def fresh (op : O) (options : RingOptions) (entries : Nat) : Lifetime O E W C :=
  ⟨Submission.new op, Ring.build options entries, .held, true⟩

/-- Whatever the ring went through before the first poll is part of the run. -/
def watched (op : MultiOp O E Out C) (streams : Bool) (blank : γ)
    (see : γ → Lifetime O E W C → Move O E W C → Outcome Out W C → γ) :
    Machine (Lifetime O E W C × γ) (Move O E W C) Panic :=
  Transitions.watched (fun life => ∃ value options entries, life = fresh value options entries)
    (fun life move => life.permits streams move = true) (exec op) blank see

theorem watched_step {op : MultiOp O E Out C} {streams : Bool} {blank : γ}
    {see : γ → Lifetime O E W C → Move O E W C → Outcome Out W C → γ}
    {s s' : Lifetime O E W C × γ} {move : Move O E W C}
    (h : (watched op streams blank see).exec s move = .ok s') :
    ∃ outcome, s.1.exec op move = .ok (s'.1, outcome) ∧ s'.2 = see s.2 s.1 move outcome := by
  unfold watched at h
  exact watched_eq_ok h

end Lifetime

end Inel.Reactor
