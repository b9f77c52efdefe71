import Inel.Executor.Task
import Inel.Reactor.Result

/-!
# The executor's run

The loop checks, drains and waits; code of others runs before and after it, while
a future is polled, while the reactor waits and in destructors, and may then use
any waker, spawn and join. The loop goes on once the destructors are through.
-/

namespace Inel.Tasks

open Transitions

inductive Move (T : Type)
  | spawn (blocking : Bool)
  | clone (id : TaskId)
  | wake (id : TaskId)
  | wakeByRef (id : TaskId)
  | drop (id : TaskId)
  | tryJoin (id : TaskId)
  | detach (id : TaskId)
  /-- The destructor of a future ends. -/
  | free (id : TaskId)
  | run
  | check
  | next
  /-- The future that was spawned returns `Ready`. -/
  | finish (output : T)
  /-- The poll returns. -/
  | endPoll
  | waited
deriving DecidableEq, Repr

namespace Executor

variable {T : Type}

def new (task : TaskId → Task T) : Executor T := ⟨task, 0, [], 1, [], .idle⟩

def isDropping (s : Executor T) : Bool :=
  (List.range s.born).any fun id => (s.task id).stage == .dropping

/-- The loop has called something, or is not running. -/
def calls (s : Executor T) : Bool :=
  match s.phase with
  | .checking | .draining => s.isDropping
  | _ => true

/-- There is a waker to borrow. -/
def canBorrow (s : Executor T) (id : TaskId) : Bool := id ∈ s.wakers || s.phase == .polling id

def step (s : Executor T) : Move T → Executor T
  | .spawn blocking => s.scheduleNew blocking
  | .clone id => s.wakerClone id
  | .wake id => s.wake id
  | .wakeByRef id => s.wakeByRef id
  | .drop id => s.wakerDrop id
  | .tryJoin id => (s.tryJoin id).2
  | .detach id => s.detach id
  | .free id => s.free id
  | .run => { s with phase := .checking }
  | .check => s.check
  | .next => s.next
  | .finish output =>
      match s.phase with
      | .polling id => s.send id output
      | _ => s
  | .endPoll =>
      match s.phase with
      | .polling id => s.endPoll id
      | _ => s
  | .waited => { s with phase := .checking }

/-- A fused future is not polled past its end, and `block_on` keeps its handle
to itself. -/
def permits (s : Executor T) : Move T → Bool
  | .spawn blocking => s.calls && (!blocking || s.phase == .idle)
  | .clone id => s.calls && s.canBorrow id
  | .wake id => s.calls && id ∈ s.wakers
  | .wakeByRef id => s.calls && s.canBorrow id
  | .drop id => s.calls && id ∈ s.wakers
  | .tryJoin id => s.calls && id < s.born && !(s.task id).blocking
  | .detach id => s.calls && id < s.born && !(s.task id).blocking
  | .free id => id < s.born && (s.task id).stage == .dropping
  | .run => s.phase == .idle && !s.isDropping
  | .check => s.phase == .checking && !s.isDropping
  | .next => s.phase == .draining && !s.isDropping
  | .finish _ =>
      match s.phase with
      | .polling id => (s.task id).future == .incomplete
      | _ => false
  | .endPoll =>
      match s.phase with
      | .polling _ => !s.isDropping
      | _ => false
  | .waited => s.phase == .waiting && !s.isDropping

/-- What `block_on` returns once `run` has. -/
def blockedOn (s : Executor T) (id : TaskId) : Except Reactor.Panic T :=
  match (s.tryJoin id).1 with
  | some output => .ok output
  | none => .error (.expect "Failed to complete future. Deadlock maybe?")

/-- A run watched from outside; nothing the executor does panics before `block_on` does. -/
def watch {γ : Type} (blank : γ) (see : γ → Executor T → Move T → γ) :
    Machine (Executor T × γ) (Move T) Reactor.Panic :=
  watched (fun s => ∃ task, s = new task) (fun s move => s.permits move = true)
    (fun s move => .ok (s.step move, ())) blank fun seen s move _ => see seen s move

theorem watch_step {γ : Type} {blank : γ} {see : γ → Executor T → Move T → γ}
    {s s' : Executor T × γ} {move : Move T} (h : (watch blank see).exec s move = .ok s') :
    s'.1 = s.1.step move ∧ s'.2 = see s.2 s.1 move := by
  unfold watch at h
  obtain ⟨out, hstep, hseen⟩ := watched_eq_ok h
  exact ⟨(Prod.mk.inj (Except.ok.inj hstep)).1.symm, hseen⟩

end Executor

end Inel.Tasks
