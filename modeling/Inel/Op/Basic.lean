import Inel.Reactor.Result

/-!
# Ops

An op builds the entry of one request and decodes its results. Given up early it
turns into a cancellation, which keeps what the entry points to and may look at
the results that still come.
-/

namespace Inel.Reactor

structure Op (O E Out C : Type) where
  entry : O → E × O
  result : O → RingResult → Except Panic Out
  cancel : O → C
  entryCancel : UInt64 → Option E

/-- An op that can generate multiple completions. -/
structure MultiOp (O E Out C : Type) extends Op O E Out C where
  next : O → RingResult → Except Panic Out

/-- A file as an entry names it: a descriptor or a slot of the registered table. -/
inductive Target
  | fd (raw : Int32)
  | fixed (slot : UInt32)
deriving DecidableEq, Repr

inductive DestinationSlot
  | auto
  | slot (index : UInt32)
deriving DecidableEq, Repr

structure DirectAutoFd where
  slot : UInt32
deriving DecidableEq, Repr

namespace DirectAutoFd

/-- `from_raw_slot(ret as u32)`. -/
def ofRet (ret : Int32) : DirectAutoFd := ⟨ret.toUInt32⟩

def asSource (direct : DirectAutoFd) : Target := .fixed direct.slot

end DirectAutoFd

inductive FsyncFlags
  | dataSync
  | all
deriving DecidableEq, Repr

/-- The requests ops make. Memory that an entry points to stands in the op, or in
the group a buffer was put into. -/
inductive Opcode
  | openAt (dir : Int32) (path : List UInt8) (flags : Int32) (mode : UInt32)
      (fileIndex : Option DestinationSlot)
  | socket (domain typ proto : Int32) (fileIndex : Option DestinationSlot)
  | accept (source : Target) (fileIndex : Option DestinationSlot)
  | acceptMulti (source : Target) (allocateFileIndex : Bool)
  | filesUpdate (len : UInt32) (offset : Option UInt32)
  | fixedFdInstall (slot : UInt32) (flags : UInt32)
  | read (source : Target) (len : UInt32) (offset : UInt64)
  | write (source : Target) (len : UInt32) (offset : UInt64)
  | bind (source : Target) (len : UInt32)
  | listen (source : Target) (backlog : Int32)
  | shutdown (source : Target) (how : Int32)
  | close (source : Target)
  | provideBuffers (address : Nat) (len : Int32) (count group buffer : UInt16)
  | removeBuffers (count group : UInt16)
  | readGroup (source : Target) (group : UInt16)
  | readGroupMulti (source : Target) (group : UInt16)
  | asyncCancel (userData : UInt64)
  | nop
  | fsync (source : Target) (flags : FsyncFlags)
  | statx (dir : Int32) (path : List UInt8) (flags : Int32) (mask : UInt32)
  | mkDirAt (dir : Int32) (path : List UInt8) (mode : UInt32)
  | ftruncate (source : Target) (len : UInt64)
  | fadvise (source : Target) (len : Int64) (advice : Int32) (offset : UInt64)
  | fallocate (source : Target) (len offset : UInt64)
  | linkAt (fromDir : Int32) (fromPath : List UInt8) (toDir : Int32) (toPath : List UInt8)
  | symlinkAt (dir : Int32) (target path : List UInt8)
  | unlinkAt (dir : Int32) (path : List UInt8) (flags : Int32)
  | connect (source : Target) (len : UInt32)
  | readFixed (source : Target) (len : UInt32) (bufIndex : UInt16) (offset : UInt64)
  | writeFixed (source : Target) (len : UInt32) (bufIndex : UInt16) (offset : UInt64)
  | readv (source : Target) (iovecs : List Nat) (offset : UInt64)
  | writev (source : Target) (iovecs : List Nat) (offset : UInt64)
deriving DecidableEq, Repr

/-! ## Cancellations -/

/-- What a callback of a cancellation does. -/
inductive Action
  | free
  | close (file : Target)
deriving DecidableEq, Repr

/-- The callbacks, applied to the resource they were made for. -/
structure Cancellation where
  drop : Option (List Action)
  consume : Option (RingResult → List Action)

namespace Cancellation

def empty : Cancellation := ⟨none, none⟩

/-- `From<CString>`, `From<Vec<T>>` and `From<Box<[T]>>`. -/
def ofMemory : Cancellation := ⟨some [.free], none⟩

/-- `From<Box<T>>`, whose callback drops a `Box<()>`: the box is not freed. -/
def ofBox : Cancellation := ⟨some [], none⟩

def actions {W : Type} : Effect W Cancellation → List Action
  | .wake _ => []
  | .consume cancel result => (cancel.consume.map fun consume => consume result).getD []
  | .dropRaw cancel => cancel.drop.getD []

end Cancellation

def Action.closes (actions : List Action) : List Target :=
  actions.filterMap fun
    | .close file => some file
    | _ => none

/-! ## Decoding results -/

/-- `io::Error`, made from an error number. -/
structure OsError where
  code : Int32
deriving DecidableEq, Repr

def expectNew {Fd : Type} (make : Int32 → Fd) (res : RingResult) :
    Except Panic (Except OsError Fd) :=
  if 0 < res.ret then .ok (.ok (make res.ret))
  else if res.ret < 0 then .ok (.error ⟨-res.ret⟩)
  else .error (.unreachable "")

def expectFd : RingResult → Except Panic (Except OsError Int32) := expectNew id

def expectDirect : RingResult → Except Panic (Except OsError DirectAutoFd) :=
  expectNew DirectAutoFd.ofRet

/-- A completion that says no more than whether the request succeeded. -/
def expectZero (res : RingResult) : Except Panic (Except OsError Unit) :=
  if res.ret = 0 then .ok (.ok ())
  else if res.ret < 0 then .ok (.error ⟨-res.ret⟩)
  else .error (.unreachable "")

/-- A completion that counts bytes or buffers. -/
def expectPositive (res : RingResult) : Except OsError Nat :=
  if res.ret < 0 then .error ⟨-res.ret⟩ else .ok res.ret.toInt.toNat

/-- `Op::entry_cancel`, unless an op says otherwise. -/
def asyncCancel (key : UInt64) : Option Opcode := some (.asyncCancel key)

/-! ## An op that does nothing -/

structure Nop where
deriving DecidableEq, Repr

namespace Nop

def next (res : RingResult) : Except Panic Unit :=
  if res.ret = 0 ∨ res.ret = -125 then .ok ()
  else .error (.panicked "assertion failed: res.ret() == 0 || res.ret() == -libc::ECANCELED")

def op : MultiOp Nop Opcode Unit Cancellation where
  entry := fun nop => (.nop, nop)
  result := fun _ res => next res
  cancel := fun _ => .empty
  entryCancel := asyncCancel
  next := fun _ res => next res

end Nop

end Inel.Reactor
