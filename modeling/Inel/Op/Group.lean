import Inel.Op.Basic
import Inel.Reactor.Group

/-!
# Ops on buffer groups

A buffer is put into its group as the entry that provides it to the kernel is
built. A read names the group only: which of its buffers the kernel filled is
told by the result.
-/

namespace Inel.Reactor

/-- A boxed slice: where it is and how long. -/
structure Boxed where
  address : Nat
  size : Nat
deriving DecidableEq, Repr

/-- The buffer is in `buffer` until the entry was built. -/
structure ProvideBuffer where
  buffer : Option Boxed
deriving DecidableEq, Repr

namespace ProvideBuffer

def new (buffer : Boxed) : ProvideBuffer := ⟨some buffer⟩

/-- Builds the entry once; the buffer is the group's from then on. -/
def entry (provide : ProvideBuffer) (group : ReadBufferGroup Boxed) (slot : Nat) :
    Option (Opcode × ProvideBuffer × ReadBufferGroup Boxed) :=
  provide.buffer.map fun buffer =>
    let (id, group) := group.put slot buffer
    (.provideBuffers buffer.address (.ofNat buffer.size) 1 (groupIndex group.id) id, ⟨none⟩, group)

def result : RingResult → Except Panic (Except OsError Unit) := expectZero

end ProvideBuffer

namespace RemoveBuffers

def entry (group : ReadBufferGroup Boxed) : Opcode :=
  .removeBuffers (.ofNat group.present) (groupIndex group.id)

/-- The kernel has to give up as many buffers as are still present. -/
def result (group : ReadBufferGroup Boxed) (res : RingResult) :
    Except Panic (ReadBufferGroup Boxed) :=
  if 0 < group.present then
    match expectPositive res with
    | .error _ => .error (.panicked "called `Result::unwrap()` on an `Err` value")
    | .ok removed =>
        if removed = group.present then .ok group.clear
        else .error (.panicked "assertion `left == right` failed")
  else .ok group

end RemoveBuffers

structure ReadGroup where
  source : Target
deriving DecidableEq, Repr

namespace ReadGroup

def entry (read : ReadGroup) (group : ReadBufferGroup Boxed) : Opcode :=
  .readGroup read.source (groupIndex group.id)

def result (group : ReadBufferGroup Boxed) (res : RingResult) :
    Except Panic ((Option Boxed × Except OsError Nat) × ReadBufferGroup Boxed) :=
  match res.bufferId with
  | none => .ok ((none, expectPositive res), group)
  | some id => do
      let (buffer, group) ← group.take id
      return ((some buffer, expectPositive res), group)

/-- What its cancellation does with a result that still comes. -/
def consume (group : ReadBufferGroup Boxed) (res : RingResult) :
    Except Panic (ReadBufferGroup Boxed) :=
  match res.bufferId with
  | none => .ok group
  | some id => group.markCancelled id

end ReadGroup

/-- Reads until it is cancelled or the group runs out of buffers. -/
structure ReadGroupMulti where
  source : Target
deriving DecidableEq, Repr

namespace ReadGroupMulti

def entry (read : ReadGroupMulti) (group : ReadBufferGroup Boxed) : Opcode :=
  .readGroupMulti read.source (groupIndex group.id)

def next (group : ReadBufferGroup Boxed) (res : RingResult) :
    Except Panic ((Option Boxed × Except OsError Nat) × ReadBufferGroup Boxed) :=
  ReadGroup.result group res

def result (group : ReadBufferGroup Boxed) (res : RingResult) :
    Except Panic ((Option Boxed × Except OsError Nat) × ReadBufferGroup Boxed) :=
  next group res

end ReadGroupMulti

end Inel.Reactor
