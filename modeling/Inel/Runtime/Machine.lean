import Inel.Executor.Senders
import Inel.Reactor.Counters
import Inel.Reactor.WakersKept

/-!
# The runtime

The executor polls tasks, the futures of tasks hold submissions, and once nobody is
queued the executor waits for the ring. The wakers that the ring keeps are those of
the tasks that submitted. A submission stays with the task that made it and is
dropped before the output of the task is sent, or with its future.
-/

namespace Inel

open Transitions
open Reactor hiding Move Phase Stage
open Tasks (TaskId Executor)

namespace Runtime

/-- A submission in the hands of a task. -/
structure Held (O : Type) where
  owner : TaskId
  submission : Submission O
  /-- Who it is to the kernel, once it was submitted. -/
  id : Option SubmissionId
  uses : List OpUse
  dropped : Bool
deriving DecidableEq, Repr

namespace Held

variable {O : Type}

def new (owner : TaskId) (op : O) : Held O := ⟨owner, Submission.new op, none, [], false⟩

/-- The key that is its own to use. -/
def key (held : Held O) : Option Key :=
  match held.submission.state with
  | .submitted key => if held.dropped then none else some key
  | _ => none

/-- The slot of the completion set that a call of it is about. -/
def seat (held : Held O) (slot : Nat) : Nat :=
  match held.submission.state with
  | .submitted key => key.asUsize
  | _ => slot

end Held

inductive Move (O T : Type)
  | task (move : Tasks.Move T)
  /-- The future that is polled makes a submission. -/
  | create (op : O)
  | poll (i slot : Nat)
  | pollNext (i slot : Nat)
  | drop (i : Nat)
  | submitDetached
  | enter
  | post (i : Nat) (result : RingResult)
  | handle (i : Nat)
  | leave

end Runtime

structure Runtime (O T C : Type) where
  executor : Executor T
  /-- The outputs that were sent. -/
  outputs : List (TaskId × T)
  system : System TaskId C
  /-- Every submission that was made. -/
  held : List (Runtime.Held O)
  /-- The wakers that are kept elsewhere than in the ring. -/
  elsewhere : List TaskId
  /-- How many completions must be there before the wait returns. -/
  asked : Nat

namespace Runtime

variable {O E Out T C : Type}

/-- The ops of the tasks, whose entries say who they are for. -/
def named (op : MultiOp O E Out C) (s : System TaskId C) : MultiOp O Request Out C where
  entry := fun o => (.submission s.born, (op.entry o).2)
  result := op.result
  next := op.next
  cancel := op.cancel
  entryCancel := fun data => (op.entryCancel data).map fun _ =>
    .asyncCancel (s.occupant (Key.fromU64 data).asUsize) (Key.fromU64 data)

/-- A waker that came into the ring was cloned; one that left it was dropped. -/
def settle (executor : Executor T) : Option TaskId → Option TaskId → Executor T
  | none, some id => executor.step (.clone id)
  | some id, none => executor.step (.drop id)
  | _, _ => executor

def called (r : Runtime O T C) (system : System TaskId C) (slot : Nat) : Runtime O T C :=
  { r with
    system := system,
    executor := settle r.executor (r.system.ring.completions.waker slot)
      (system.ring.completions.waker slot) }

/-- The first poll of a submission gives it an identity. -/
def afterPoll (s : System TaskId C) (state : SubmissionState) (slot : Nat)
    (ring : Ring Request TaskId C) : System TaskId C :=
  match state with
  | .initial => { s with
      ring := ring, occupant := Function.update s.occupant slot s.born, born := s.born + 1 }
  | _ => { s with ring := ring }

def afterDrop (s : System TaskId C) (state : SubmissionState) (ring : Ring Request TaskId C) :
    System TaskId C :=
  match state with
  | .submitted key => { s with
      ring := ring, withdrawn := s.occupant key.asUsize :: s.withdrawn }
  | _ => { s with ring := ring }

/-- A poll that does not panic. -/
def answered {α : Type} (r : Runtime O T C) (i : Nat) (held : Held O) (slot : Nat)
    (polled : Polled α O Request TaskId C) : Except Panic (Runtime O T C) := do
  let _ ← polled.value
  let system := afterPoll r.system held.submission.state slot polled.ring
  let id := if held.submission.state = .initial then some r.system.born else held.id
  return { r.called system (held.seat slot) with
    held := r.held.set i { held with
      submission := polled.submission, id := id, uses := held.uses ++ polled.uses } }

/-- The callbacks that run as a completion is read. -/
def effects (s : System TaskId C) (i : Nat) : List (Effect TaskId C) :=
  match s.taken[i]? with
  | some ⟨entry, result :: _⟩ =>
      match s.ring.handleCompletion ⟨entry.userData, result⟩ with
      | .ok ran => ran.effects
      | .error _ => []
  | _ => []

/-- `Waker::wake_by_ref`, for each callback that is one. -/
def wakes (executor : Executor T) : List (Effect TaskId C) → Executor T
  | [] => executor
  | .wake id :: effects => wakes (executor.step (.wakeByRef id)) effects
  | _ :: effects => wakes executor effects

/-- The slot that the completion of an entry is for. -/
def seatOf (s : System TaskId C) (i : Nat) : Nat :=
  (s.taken[i]?).elim 0 fun t => (Key.fromU64 t.entry.userData).asUsize

/-- The wakers kept elsewhere, as someone uses them. -/
def keeps (elsewhere : List TaskId) : Tasks.Move T → List TaskId
  | .clone id => id :: elsewhere
  | .wake id => elsewhere.erase id
  | .drop id => elsewhere.erase id
  | _ => elsewhere

def exec (op : MultiOp O E Out C) (r : Runtime O T C) : Move O T → Except Panic (Runtime O T C)
  | .task move => .ok { r with
      executor := r.executor.step move,
      outputs := Executor.seeOutputs r.outputs r.executor move,
      elsewhere := keeps r.elsewhere move }
  | .create value =>
      match r.executor.phase with
      | .polling id => .ok { r with held := r.held ++ [Held.new id value] }
      | _ => .ok r
  | .poll i slot =>
      match r.held[i]? with
      | none => .ok r
      | some held => do
          let polled ← held.submission.poll (named op r.system).toOp r.system.ring slot held.owner
          r.answered i held slot polled
  | .pollNext i slot =>
      match r.held[i]? with
      | none => .ok r
      | some held => do
          let polled ← held.submission.pollNext (named op r.system) r.system.ring slot held.owner
          r.answered i held slot polled
  | .drop i =>
      match r.held[i]? with
      | none => .ok r
      | some held => do
          let ran ← held.submission.drop (named op r.system).toOp r.system.ring
          let system := afterDrop r.system held.submission.state ran.state
          return { r.called system (held.seat 0) with
            held := r.held.set i { held with uses := held.uses ++ ran.value, dropped := true } }
  | .submitDetached => do
      let system ← r.system.exec .submitDetached
      return { r with system := system }
  | .enter => do
      let system ← r.system.exec .enter
      let asked := if r.system.ring.idle then 0 else r.system.ring.want.toNat
      return { r with system := system, asked := asked }
  | .post i result => do
      let system ← r.system.exec (.post i result)
      return { r with system := system }
  | .handle i => do
      let system ← r.system.exec (.handle i)
      let woken := { r with executor := wakes r.executor (effects r.system i) }
      return { woken.called system (seatOf r.system i) with asked := r.asked - 1 }
  | .leave => do
      let system ← r.system.exec .leave
      return { r with system := system, executor := r.executor.step .waited }

/-- What a move is to ring and kernel. -/
def command (op : MultiOp O E Out C) (r : Runtime O T C) : Move O T → Option (Command TaskId C)
  | .poll i slot => (r.held[i]?).bind (asks slot)
  | .pollNext i slot => (r.held[i]?).bind (asks slot)
  | .drop i => (r.held[i]?).bind fun held =>
      match held.submission.state with
      | .submitted key => some
          (.cancel key (op.entryCancel key.asU64).isSome (op.cancel held.submission.op))
      | _ => none
  | .submitDetached => some .submitDetached
  | .enter => some .enter
  | .post i result => some (.post i result)
  | .handle i => some (.handle i)
  | .leave => some .leave
  | _ => none
where
  asks (slot : Nat) (held : Held O) : Option (Command TaskId C) :=
    match held.submission.state with
    | .initial => some (.submit slot held.owner)
    | .submitted key => some (.checkResult key)
    | .completed => none

/-- The future of a task holds no submissions any more. -/
def letGo (r : Runtime O T C) (id : TaskId) : Bool :=
  r.held.all fun held => held.dropped || held.owner != id

/-- A task acts as it is polled and as its future is dropped, for itself. While the
executor waits only the kernel and the ring do anything. -/
def allows (r : Runtime O T C) : Move O T → Bool
  | .task move => r.executor.permits move && r.executor.phase != .waiting &&
      match move with
      | .clone id => id ∈ r.elsewhere || r.executor.phase == .polling id
      | .wakeByRef id => id ∈ r.elsewhere || r.executor.phase == .polling id
      | .wake id => id ∈ r.elsewhere
      | .drop id => id ∈ r.elsewhere
      | .finish _ =>
          match r.executor.phase with
          | .polling id => r.letGo id
          | _ => false
      | .free id => r.letGo id
      | _ => true
  | .create _ =>
      match r.executor.phase with
      | .polling id => (r.executor.task id).future == .incomplete
      | _ => false
  | .poll i _ => (r.held[i]?).any fun held =>
      !held.dropped && r.executor.phase == .polling held.owner
  | .pollNext i _ => (r.held[i]?).any fun held =>
      !held.dropped && r.executor.phase == .polling held.owner
  | .drop i => (r.held[i]?).any fun held => !held.dropped &&
      (r.executor.phase == .polling held.owner ||
        (r.executor.phase != .waiting && (r.executor.task held.owner).stage == .dropping))
  | .submitDetached => r.executor.calls && r.executor.phase != .waiting
  | .enter => r.executor.phase == .waiting
  | .leave => r.asked == 0 && !r.executor.isDropping
  | _ => true

def permits (op : MultiOp O E Out C) (r : Runtime O T C) (move : Move O T) : Bool :=
  r.allows move && (r.command op move).all r.system.permits

/-- The moves of a run in which everything can be accounted for. -/
def Calm (op : MultiOp O E Out C) (r : Runtime O T C) (move : Move O T) : Prop :=
  ∀ command, r.command op move = some command → r.system.Orderly command

def machine (op : MultiOp O E Out C) (T : Type) : Machine (Runtime O T C) (Move O T) Panic where
  init r := ∃ task options entries occupant,
    r = ⟨Executor.new task, [], ⟨Ring.build options entries, occupant, 0, [], [], false, []⟩, [],
      [], 0⟩
  permits r move := r.permits op move = true
  exec := exec op

def calm (op : MultiOp O E Out C) (r : Runtime O T C) (move : Move O T) : Bool :=
  r.permits op move && (r.command op move).all fun c => r.system.keysFit c &&
    (r.system.countersFit c && (r.system.ignoredOnce c && r.system.readsFirst c))

theorem calm_spec {op : MultiOp O E Out C} {r : Runtime O T C} {move : Move O T}
    (h : r.calm op move = true) : r.permits op move = true ∧ r.Calm op move := by
  simp only [calm, Bool.and_eq_true, Option.all_eq_true] at h
  refine ⟨h.1, fun command hcommand => ?_⟩
  obtain ⟨hkeys, hcounters, hignored, hreads⟩ := h.2 command hcommand
  exact ⟨hkeys, hcounters, hignored, hreads⟩

theorem calm_and_spec {op : MultiOp O E Out C} (test : Runtime O T C → Move O T → Bool)
    (r : Runtime O T C) (move : Move O T) (h : (r.calm op move && test r move) = true) :
    (machine op T).permits r move ∧ r.Calm op move ∧ test r move = true := by
  obtain ⟨hcalm, htest⟩ := Bool.and_eq_true_iff.mp h
  exact ⟨(calm_spec hcalm).1, (calm_spec hcalm).2, htest⟩

end Runtime

end Inel
