import Mathlib.Data.Finset.Card
import Mathlib.Logic.Function.Basic
import Inel.Base.Transition

/-!
# Tasks

A task is kept alive by counted references: from the queue, from the loop that
polls it and from wakers, whose table of functions counts by hand. With the last
reference its future is dropped, which may run any code, and then its sender.
-/

namespace Inel.Tasks

abbrev TaskId := Nat

inductive Stage
  | live
  /-- The destructor of the future is running. -/
  | dropping
  | freed
deriving DecidableEq, Repr

/-- The future of a task: the one spawned, then the one that sends its output,
fused. What it does at a poll is not fixed. -/
inductive FutureState
  | incomplete
  | complete
deriving DecidableEq, Repr

/-- The channel to the `JoinHandle`. `output` is what was sent and not received. -/
structure JoinChannel (T : Type) where
  output : Option T
  sends : Nat
  receiver : Bool
deriving DecidableEq, Repr

structure Task (T : Type) where
  scheduled : Bool
  strong : Nat
  stage : Stage
  future : FutureState
  channel : JoinChannel T
  /-- The handle belongs to `block_on`. -/
  blocking : Bool
deriving DecidableEq, Repr

inductive Phase
  | idle
  | checking
  | draining
  | polling (id : TaskId)
  | waiting
deriving DecidableEq, Repr

/-- `wakers` has the wakers there are, by what they point to, except for the one
that the loop polls with. -/
structure Executor (T : Type) where
  task : TaskId → Task T
  born : Nat
  queue : List TaskId
  senders : Nat
  wakers : List TaskId
  phase : Phase

namespace Executor

variable {T : Type}

def update (s : Executor T) (id : TaskId) (f : Task T → Task T) : Executor T :=
  { s with task := Function.update s.task id (f (s.task id)) }

def rcClone (s : Executor T) (id : TaskId) : Executor T :=
  s.update id fun task => { task with strong := task.strong + 1 }

/-- The last reference takes the task with it. -/
def rcDrop (s : Executor T) (id : TaskId) : Executor T :=
  s.update id fun task => { task with
    strong := task.strong - 1, stage := if task.strong = 1 then .dropping else task.stage }

/-! ## `Task` and `TaskQueue` -/

/-- `Task::schedule`; there is a receiver as long as there is an executor. -/
def schedule (s : Executor T) (id : TaskId) : Executor T :=
  if (s.task id).scheduled then s
  else
    let s := s.update id fun task => { task with scheduled := true }
    { s.rcClone id with queue := s.queue ++ [id] }

/-- `Rc::new` of a task, which has a sender of its own. -/
def allocate (s : Executor T) (task : Task T) : Executor T :=
  { s with
    task := Function.update s.task s.born task, born := s.born + 1, senders := s.senders + 1 }

/-- `TaskQueue::schedule`: the reference it makes the task with is dropped last. -/
def scheduleNew (s : Executor T) (blocking : Bool) : Executor T :=
  let task : Task T := ⟨false, 1, .live, .incomplete, ⟨none, 0, true⟩, blocking⟩
  ((s.allocate task).schedule s.born).rcDrop s.born

def isDone (s : Executor T) : Bool := s.senders == 1

/-! ## `WakerHelper` -/

/-- What is cloned is forgotten, as is what it was cloned from. -/
def wakerClone (s : Executor T) (id : TaskId) : Executor T :=
  { s.rcClone id with wakers := id :: s.wakers }

def wake (s : Executor T) (id : TaskId) : Executor T :=
  let s := { s with wakers := s.wakers.erase id }
  (s.schedule id).rcDrop id

def wakeByRef (s : Executor T) (id : TaskId) : Executor T := s.schedule id

def wakerDrop (s : Executor T) (id : TaskId) : Executor T :=
  { s.rcDrop id with wakers := s.wakers.erase id }

/-! ## `JoinHandle` -/

/-- `sender.send(res)`; nobody looks at whether it was received. -/
def send (s : Executor T) (id : TaskId) (output : T) : Executor T :=
  s.update id fun task => { task with
    future := .complete,
    channel := { task.channel with
      output := if task.channel.receiver then some output else none,
      sends := task.channel.sends + 1 } }

def tryJoin (s : Executor T) (id : TaskId) : Option T × Executor T :=
  ((s.task id).channel.output, s.update id fun task => { task with
    channel := { task.channel with output := none } })

/-- `JoinHandle::detach`, or the handle dropped. -/
def detach (s : Executor T) (id : TaskId) : Executor T :=
  s.update id fun task => { task with
    channel := { task.channel with output := none, receiver := false } }

/-! ## `Executor::run` -/

/-- `drain().next()` up to the call of the future's poll: the loop's reference
comes from the queue, the waker has its own and the flag is cleared. -/
def next (s : Executor T) : Executor T :=
  match s.queue with
  | [] => { s with phase := .waiting }
  | id :: queue =>
      let s := { s with queue := queue, phase := .polling id }
      (s.rcClone id).update id fun task => { task with scheduled := false }

/-- The end of the loop's body: the waker is dropped, then the task. -/
def endPoll (s : Executor T) (id : TaskId) : Executor T :=
  { (s.rcDrop id).rcDrop id with phase := .draining }

/-- The future is gone, and the task's sender goes with the task. -/
def free (s : Executor T) (id : TaskId) : Executor T :=
  { s.update id fun task => { task with stage := .freed } with senders := s.senders - 1 }

def check (s : Executor T) : Executor T :=
  { s with phase := if s.isDone then .idle else .draining }

end Executor

end Inel.Tasks
