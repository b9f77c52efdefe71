import Inel.Io.View
import Inel.Op.Basic

/-!
# File ops

A path is relative to a directory that the op names by its descriptor. An
absolute path needs none, and the ops pass `-1` for it.
-/

namespace Inel.Reactor

open Inel.Io (Bound RangeBounds)

def atFdCwd : Int32 := -100

/-- `CString::new`, unwrapped. -/
def cString (path : List UInt8) : Except Panic (List UInt8) :=
  if path.contains 0 then .error (.panicked "called `Result::unwrap()` on an `Err` value")
  else .ok path

def isAbsolute (path : List UInt8) : Bool := path.head? == some 47

structure OpenAt where
  dir : Int32
  path : List UInt8
  flags : Int32
  mode : UInt32
deriving DecidableEq, Repr

namespace OpenAt

def relativeTo (dir : Int32) (path : List UInt8) (flags : Int32) : Except Panic OpenAt := do
  let path ← cString path
  return ⟨dir, path, flags, 0⟩

def new (path : List UInt8) (flags : Int32) : Except Panic OpenAt :=
  if isAbsolute path then relativeTo (-1) path flags else relativeTo atFdCwd path flags

def rawEntry (openAt : OpenAt) (fileIndex : Option DestinationSlot) : Opcode :=
  .openAt openAt.dir openAt.path openAt.flags openAt.mode fileIndex

/-- The path goes to the cancellation, the kernel may still read it. -/
def op : Op OpenAt Opcode (Except OsError Int32) Cancellation where
  entry := fun openAt => (openAt.rawEntry none, openAt)
  result := fun _ res => expectFd res
  cancel := fun _ => .ofMemory
  entryCancel := asyncCancel

end OpenAt

structure OpenAtDirect where
  inner : OpenAt
  slot : DestinationSlot
deriving DecidableEq, Repr

def OpenAtDirect.op : Op OpenAtDirect Opcode (Except OsError Unit) Cancellation where
  entry := fun openAt => (openAt.inner.rawEntry (some openAt.slot), openAt)
  result := fun _ res => expectZero res
  cancel := fun openAt => OpenAt.op.cancel openAt.inner
  entryCancel := asyncCancel

structure OpenAtAuto where
  inner : OpenAt
deriving DecidableEq, Repr

def OpenAtAuto.op : Op OpenAtAuto Opcode (Except OsError DirectAutoFd) Cancellation where
  entry := fun openAt => (openAt.inner.rawEntry (some .auto), openAt)
  result := fun _ res => expectDirect res
  cancel := fun openAt => OpenAt.op.cancel openAt.inner
  entryCancel := asyncCancel

structure Close where
  src : Target
deriving DecidableEq, Repr

def Close.op : Op Close Opcode (Except OsError Unit) Cancellation where
  entry := fun close => (.close close.src, close)
  result := fun _ res => expectZero res
  cancel := fun _ => .empty
  entryCancel := fun _ => none

structure FSync where
  src : Target
  withMeta : Bool
deriving DecidableEq, Repr

def FSync.op : Op FSync Opcode (Except OsError Unit) Cancellation where
  entry := fun sync => (.fsync sync.src (if sync.withMeta then .all else .dataSync), sync)
  result := fun _ res => expectZero res
  cancel := fun _ => .empty
  entryCancel := asyncCancel

/-- The kernel fills `stats`. -/
structure Statx where
  dir : Int32
  mask : UInt32
  stats : List UInt8
deriving DecidableEq, Repr

/-- The path is empty and `AT_EMPTY_PATH` is set: the descriptor is the file itself. -/
def Statx.op : Op Statx Opcode (Except OsError (List UInt8)) Cancellation where
  entry := fun statx => (.statx statx.dir [] 4096 statx.mask, statx)
  result := fun statx res => do
    let filled ← expectZero res
    return filled.map fun _ => statx.stats
  cancel := fun _ => .ofBox
  entryCancel := asyncCancel

structure MkDirAt where
  dir : Int32
  path : List UInt8
  mode : UInt32
deriving DecidableEq, Repr

namespace MkDirAt

def relativeTo (dir : Int32) (path : List UInt8) : Except Panic MkDirAt := do
  let path ← cString path
  return ⟨dir, path, 0⟩

def new (path : List UInt8) : Except Panic MkDirAt :=
  if isAbsolute path then relativeTo (-1) path else relativeTo atFdCwd path

def op : Op MkDirAt Opcode (Except OsError Unit) Cancellation where
  entry := fun mkDirAt => (.mkDirAt mkDirAt.dir mkDirAt.path mkDirAt.mode, mkDirAt)
  result := fun _ res => expectZero res
  cancel := fun _ => .ofMemory
  entryCancel := asyncCancel

end MkDirAt

structure FTruncate where
  src : Target
  len : Nat
deriving DecidableEq, Repr

def FTruncate.op : Op FTruncate Opcode (Except OsError Unit) Cancellation where
  entry := fun truncate => (.ftruncate truncate.src (.ofNat truncate.len), truncate)
  result := fun _ res => expectZero res
  cancel := fun _ => .empty
  entryCancel := asyncCancel

structure FAdvise (R : Type) where
  src : Target
  advice : Int32
  range : R
deriving DecidableEq, Repr

namespace FAdvise

variable {R : Type} [RangeBounds R]

/-- Sums wrap around. -/
def offset (range : R) : UInt64 :=
  match RangeBounds.startBound range with
  | .included i => .ofNat i
  | .excluded i => .ofNat i + 1
  | .unbounded => 0

def len (range : R) : UInt64 :=
  match RangeBounds.endBound range with
  | .included i => .ofNat i + 1
  | .excluded i => .ofNat i
  | .unbounded => 0

def op : Op (FAdvise R) Opcode (Except OsError Unit) Cancellation where
  entry := fun advise =>
    (.fadvise advise.src (len advise.range).toInt64 advise.advice (offset advise.range), advise)
  result := fun _ res => expectZero res
  cancel := fun _ => .empty
  entryCancel := fun _ => none

end FAdvise

structure FAllocate where
  src : Target
  size : Nat
  offset : Nat
deriving DecidableEq, Repr

def FAllocate.op : Op FAllocate Opcode (Except OsError Unit) Cancellation where
  entry := fun allocate =>
    (.fallocate allocate.src (.ofNat allocate.size) (.ofNat allocate.offset), allocate)
  result := fun _ res => expectZero res
  cancel := fun _ => .empty
  entryCancel := fun _ => none

end Inel.Reactor
