import Inel.Io.View
import Inel.Op.Basic

/-!
# Ops that move bytes

Reads and writes own their buffer while the kernel works on it and give it back
with the number of bytes moved. Unless one was set, the offset stands for the
current position of the file.
-/

namespace Inel.Reactor

open Inel.Io (BoxBuf StableBuffer StableBufferMut)

/-- `Into<Cancellation>`, which buffers implement. -/
class IntoCancellation (Buf : Type) where
  into : Buf → Cancellation

instance : IntoCancellation BoxBuf where
  into _ := .ofMemory

/-- A buffer that is registered, with its slot. -/
class FixedBuffer (Buf : Type) where
  slot : Buf → UInt32

/-- The current position of the file. -/
def noOffset : UInt64 := 0xFFFFFFFFFFFFFFFF

/-- `Cancellation::combine`: each callback in turn, and results go to none. -/
def Cancellation.combine (cancels : List Cancellation) : Cancellation :=
  ⟨some (cancels.flatMap fun cancel => cancel.drop.getD []), none⟩

/-! ## One buffer -/

/-- A buffer with the place it is read to or written from. -/
structure Transfer (Buf : Type) where
  buf : Buf
  src : Target
  offset : UInt64
deriving DecidableEq, Repr

namespace Transfer

variable {Buf : Type}

def new (source : Target) (buf : Buf) : Transfer Buf := ⟨buf, source, noOffset⟩

def withOffset (transfer : Transfer Buf) (offset : UInt64) : Transfer Buf :=
  { transfer with offset := offset }

def op [IntoCancellation Buf] (request : Transfer Buf → Opcode) :
    Op (Transfer Buf) Opcode (Buf × Except OsError Nat) Cancellation where
  entry := fun transfer => (request transfer, transfer)
  result := fun transfer res => .ok (transfer.buf, expectPositive res)
  cancel := fun transfer => IntoCancellation.into transfer.buf
  entryCancel := asyncCancel

/-- `size() as u32`. -/
def size [StableBuffer Buf] (transfer : Transfer Buf) : UInt32 :=
  .ofNat (StableBuffer.size transfer.buf)

end Transfer

section Single

variable {Buf : Type} [IntoCancellation Buf]

def Read.op [StableBufferMut Buf] :
    Op (Transfer Buf) Opcode (Buf × Except OsError Nat) Cancellation :=
  Transfer.op fun read => .read read.src read.size read.offset

def ReadFixed.op [StableBufferMut Buf] [FixedBuffer Buf] :
    Op (Transfer Buf) Opcode (Buf × Except OsError Nat) Cancellation :=
  Transfer.op fun read =>
    .readFixed read.src read.size (FixedBuffer.slot read.buf).toUInt16 read.offset

def Write.op [StableBuffer Buf] :
    Op (Transfer Buf) Opcode (Buf × Except OsError Nat) Cancellation :=
  Transfer.op fun write => .write write.src write.size write.offset

def WriteFixed.op [StableBuffer Buf] [FixedBuffer Buf] :
    Op (Transfer Buf) Opcode (Buf × Except OsError Nat) Cancellation :=
  Transfer.op fun write =>
    .writeFixed write.src write.size (FixedBuffer.slot write.buf).toUInt16 write.offset

end Single

/-! ## Several buffers -/

/-- Building the entry adds the length of each buffer to the array. -/
structure TransferVectored (Buf : Type) where
  bufs : List Buf
  iovecs : List Nat
  src : Target
  offset : UInt64
deriving DecidableEq, Repr

namespace TransferVectored

variable {Buf : Type}

def new (source : Target) (bufs : List Buf) : TransferVectored Buf := ⟨bufs, [], source, noOffset⟩

def withOffset (transfer : TransferVectored Buf) (offset : UInt64) : TransferVectored Buf :=
  { transfer with offset := offset }

def op [StableBuffer Buf] [IntoCancellation Buf]
    (request : Target → List Nat → UInt64 → Opcode) :
    Op (TransferVectored Buf) Opcode (List Buf × Except OsError Nat) Cancellation where
  entry := fun transfer =>
    let iovecs := transfer.iovecs ++ transfer.bufs.map StableBuffer.size
    (request transfer.src iovecs transfer.offset, { transfer with iovecs := iovecs })
  result := fun transfer res => .ok (transfer.bufs, expectPositive res)
  cancel := fun transfer => .combine (transfer.bufs.map IntoCancellation.into)
  entryCancel := asyncCancel

end TransferVectored

/-- As many buffers as the type says, and an array for them. -/
structure TransferVectoredExact (n : Nat) (Buf : Type) where
  bufs : Vector Buf n
  iovecs : Vector Nat n
  src : Target
  offset : UInt64
deriving DecidableEq, Repr

namespace TransferVectoredExact

variable {n : Nat} {Buf : Type}

def new (source : Target) (bufs : Vector Buf n) : TransferVectoredExact n Buf :=
  ⟨bufs, .replicate n 0, source, noOffset⟩

def withOffset (transfer : TransferVectoredExact n Buf) (offset : UInt64) :
    TransferVectoredExact n Buf :=
  { transfer with offset := offset }

def op [StableBuffer Buf] [IntoCancellation Buf]
    (request : Target → List Nat → UInt64 → Opcode) :
    Op (TransferVectoredExact n Buf) Opcode (Vector Buf n × Except OsError Nat)
      Cancellation where
  entry := fun transfer =>
    let iovecs := transfer.bufs.map StableBuffer.size
    (request transfer.src iovecs.toList transfer.offset, { transfer with iovecs := iovecs })
  result := fun transfer res => .ok (transfer.bufs, expectPositive res)
  cancel := fun transfer => .combine (transfer.bufs.toList.map IntoCancellation.into)
  entryCancel := asyncCancel

end TransferVectoredExact

section Several

variable {Buf : Type} {n : Nat} [IntoCancellation Buf]

def ReadVectored.op [StableBufferMut Buf] :
    Op (TransferVectored Buf) Opcode (List Buf × Except OsError Nat) Cancellation :=
  TransferVectored.op .readv

def ReadVectoredExact.op [StableBufferMut Buf] :
    Op (TransferVectoredExact n Buf) Opcode (Vector Buf n × Except OsError Nat) Cancellation :=
  TransferVectoredExact.op .readv

def WriteVectored.op [StableBuffer Buf] :
    Op (TransferVectored Buf) Opcode (List Buf × Except OsError Nat) Cancellation :=
  TransferVectored.op .writev

def WriteVectoredExact.op [StableBuffer Buf] :
    Op (TransferVectoredExact n Buf) Opcode (Vector Buf n × Except OsError Nat) Cancellation :=
  TransferVectoredExact.op .writev

end Several

end Inel.Reactor
