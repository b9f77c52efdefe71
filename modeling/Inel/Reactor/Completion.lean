import Inel.Base.Slab
import Inel.Reactor.Result

/-!
# The completion set

Completions sit in a slab. A completion that posts more than one result keeps
them in a queue of a shared pool and holds the handle of that queue. The slot
an insertion fills is the slab's choice, so it is an argument here.
-/

namespace Inel.Reactor

open SlotTable

structure QueueHandle where
  raw : UInt32
deriving DecidableEq, Repr

def QueueHandle.index (handle : QueueHandle) : Nat := handle.raw.toNat

/-- Stores results for entries which generate multiple completions. The handle
on top of the stack of unused ones is the head of `unused`. -/
structure ResultQueues where
  queues : List (List RingResult)
  unused : List QueueHandle
deriving DecidableEq, Repr

namespace ResultQueues

def withCapacity (capacity : Nat) : ResultQueues :=
  ⟨List.replicate capacity [], ((List.range capacity).map fun i => ⟨.ofNat i⟩).reverse⟩

def isEmpty (queues : ResultQueues) : Bool := queues.queues.length == queues.unused.length

def handle (queues : ResultQueues) : QueueHandle × ResultQueues :=
  match queues.unused with
  | handle :: unused => (handle, { queues with unused := unused })
  | [] => (⟨.ofNat queues.queues.length⟩, { queues with queues := queues.queues ++ [[]] })

def get (queues : ResultQueues) (handle : QueueHandle) : Except Panic (List RingResult) :=
  match queues.queues[handle.index]? with
  | some queue => .ok queue
  | none => .error .index

/-- A write through the reference that `get` returns. -/
def set (queues : ResultQueues) (handle : QueueHandle) (queue : List RingResult) : ResultQueues :=
  { queues with queues := queues.queues.set handle.index queue }

def pushBack (queues : ResultQueues) (handle : QueueHandle) (result : RingResult) :
    Except Panic ResultQueues := do
  let queue ← queues.get handle
  return queues.set handle (queue ++ [result])

def release (queues : ResultQueues) (handle : QueueHandle) : Except Panic ResultQueues := do
  let _ ← queues.get handle
  let cleared := queues.set handle []
  return { cleared with unused := handle :: cleared.unused }

end ResultQueues

/-- The completion state of a single submitted entry. -/
inductive Completion (W C : Type)
  | vacant (waker : W)
  | single (result : RingResult)
  | multiple (waker : W) (handle : QueueHandle) (more : Bool)
  | cancelled (cancel : C)
  | finished
deriving DecidableEq, Repr

namespace Completion

variable {W C : Type}

def new (waker : W) : Completion W C := .vacant waker

def isFinished : Completion W C → Bool
  | .finished => true
  | _ => false

def tryCancel (completion : Completion W C) (queues : ResultQueues) (cancel : C) :
    Except Panic (Ran Bool (Completion W C × ResultQueues) W C) :=
  match completion with
  | .vacant _ => .ok ⟨true, (.cancelled cancel, queues), []⟩
  | .single result =>
      .ok ⟨false, (.finished, queues), [.consume cancel result, .dropRaw cancel]⟩
  | .multiple _ handle more => do
      let results ← queues.get handle
      let consumed := results.map (Effect.consume cancel)
      let queues ← queues.release handle
      if more then
        return ⟨true, (.cancelled cancel, queues), consumed⟩
      else
        return ⟨false, (.finished, queues), consumed ++ [.dropRaw cancel]⟩
  | _ => .error (.unreachable "Completion already cancelled")

def tryNotify (completion : Completion W C) (queues : ResultQueues) (result : RingResult) :
    Except Panic (Ran Unit (Completion W C × ResultQueues) W C) :=
  match completion with
  | .vacant waker =>
      if result.hasMore then do
        let (handle, queues) := queues.handle
        let queues ← queues.pushBack handle result
        return ⟨(), (.multiple waker handle true, queues), [.wake waker]⟩
      else
        .ok ⟨(), (.single result, queues), [.wake waker]⟩
  | .multiple waker handle _ => do
      let queues ← queues.pushBack handle result
      return ⟨(), (.multiple waker handle result.hasMore, queues), [.wake waker]⟩
  | .cancelled cancel =>
      -- the replacement left in place is `finished`, whatever `result` says of more
      .ok ⟨(), (.finished, queues), [.consume cancel result, .dropRaw cancel]⟩
  | _ => .error (.unreachable "Completion already finished")

def takeResult (completion : Completion W C) (queues : ResultQueues) :
    Except Panic (Ran (Option RingResult) (Completion W C × ResultQueues) W C) :=
  match completion with
  | .single result => .ok ⟨some result, (.finished, queues), []⟩
  | .multiple _ handle more => do
      let queue ← queues.get handle
      let queues := queues.set handle queue.tail
      let rest ← queues.get handle
      if rest.isEmpty && !more then
        let queues ← queues.release handle
        return ⟨queue.head?, (.finished, queues), []⟩
      else
        return ⟨queue.head?, (completion, queues), []⟩
  | _ => .ok ⟨none, (completion, queues), []⟩

end Completion

/-- Keeps track of completions. -/
structure CompletionSet (W C : Type) where
  slab : Slab (Completion W C)
  queues : ResultQueues
deriving DecidableEq, Repr

namespace CompletionSet

variable {W C τ : Type}

def withCapacity (_capacity : Nat) : CompletionSet W C :=
  ⟨Slab.empty, ResultQueues.withCapacity 4⟩

def isEmpty (set : CompletionSet W C) : Bool := set.slab.isEmpty && set.queues.isEmpty

/-- `slot` is the index the slab picks, one that `Slab.admits`. -/
def insert (set : CompletionSet W C) (slot : Nat) (waker : W) : Key × CompletionSet W C :=
  (Key.fromUsize slot, { set with slab := set.slab.insert slot (Completion.new waker) })

def withCompletion (set : CompletionSet W C) (key : Key)
    (run : Completion W C → ResultQueues →
      Except Panic (Ran τ (Completion W C × ResultQueues) W C)) :
    Except Panic (Ran τ (CompletionSet W C) W C) :=
  match set.slab.get key.asUsize with
  | none => .error (.expect "unexpected key")
  | some completion => do
      let ⟨value, (completion, queues), effects⟩ ← run completion set.queues
      let slab := if completion.isFinished then set.slab.remove key.asUsize
        else set.slab.put key.asUsize completion
      return ⟨value, ⟨slab, queues⟩, effects⟩

def cancel (set : CompletionSet W C) (key : Key) (cancel : C) :
    Except Panic (Ran Bool (CompletionSet W C) W C) :=
  set.withCompletion key fun completion queues => completion.tryCancel queues cancel

def notify (set : CompletionSet W C) (key : Key) (result : RingResult) :
    Except Panic (Ran Unit (CompletionSet W C) W C) :=
  set.withCompletion key fun completion queues => completion.tryNotify queues result

def result (set : CompletionSet W C) (key : Key) :
    Except Panic (Ran (Option RingResult) (CompletionSet W C) W C) :=
  set.withCompletion key fun completion queues => completion.takeResult queues

end CompletionSet

end Inel.Reactor
