import Inel.Op.Address
import Inel.Op.Basic

/-!
# Network ops

The kernel writes the peer of an accepted connection to memory of the op. A
multishot accept asks for no peer and keeps completing.
-/

namespace Inel.Reactor

structure Socket where
  domain : Int32
  typ : Int32
  proto : Int32
deriving DecidableEq, Repr

namespace Socket

/-- `SOCK_STREAM` over `AF_INET` or `AF_INET6`. -/
def streamFromAddr : SocketAddr → Socket
  | .v4 .. => ⟨2, 1, 0⟩
  | .v6 .. => ⟨10, 1, 0⟩

def entryRaw (socket : Socket) (fileIndex : Option DestinationSlot) : Opcode :=
  .socket socket.domain socket.typ socket.proto fileIndex

def op : Op Socket Opcode (Except OsError Int32) Cancellation where
  entry := fun socket => (socket.entryRaw none, socket)
  result := fun _ res => expectFd res
  cancel := fun _ => .empty
  entryCancel := fun _ => none

end Socket

structure SocketFixed where
  inner : Socket
  slot : DestinationSlot
deriving DecidableEq, Repr

def SocketFixed.op : Op SocketFixed Opcode (Except OsError Unit) Cancellation where
  entry := fun socket => (socket.inner.entryRaw (some socket.slot), socket)
  result := fun _ res => expectZero res
  cancel := fun _ => .empty
  entryCancel := fun _ => none

structure SocketAuto where
  inner : Socket
deriving DecidableEq, Repr

def SocketAuto.op : Op SocketAuto Opcode (Except OsError DirectAutoFd) Cancellation where
  entry := fun socket => (socket.inner.entryRaw (some .auto), socket)
  result := fun _ res => expectDirect res
  cancel := fun _ => .empty
  entryCancel := fun _ => none

structure Bind where
  src : Target
  addr : SocketAddrCRepr
  len : UInt32
deriving DecidableEq

namespace Bind

def new (order : ByteOrder) (source : Target) (addr : SocketAddr) : Bind :=
  let (addr, len) := intoRawAddr order addr
  ⟨source, addr, len⟩

def op : Op Bind Opcode (Except OsError Unit) Cancellation where
  entry := fun bind => (.bind bind.src bind.len, bind)
  result := fun _ res => expectZero res
  cancel := fun _ => .empty
  entryCancel := fun _ => none

end Bind

structure Listen where
  src : Target
  backlog : UInt32
deriving DecidableEq, Repr

def Listen.op : Op Listen Opcode (Except OsError Unit) Cancellation where
  entry := fun listen => (.listen listen.src (listen.backlog.toInt32), listen)
  result := fun _ res => expectZero res
  cancel := fun _ => .empty
  entryCancel := fun _ => none

structure Connect where
  src : Target
  addr : SocketAddrCRepr
  len : UInt32
deriving DecidableEq

namespace Connect

def new (order : ByteOrder) (source : Target) (addr : SocketAddr) : Connect :=
  let (addr, len) := intoRawAddr order addr
  ⟨source, addr, len⟩

def op : Op Connect Opcode (Except OsError Unit) Cancellation where
  entry := fun connect => (.connect connect.src connect.len, connect)
  result := fun _ res => expectZero res
  cancel := fun _ => .empty
  entryCancel := asyncCancel

end Connect

structure Accept where
  src : Target
  addr : SocketAddrCRepr
  len : UInt32
deriving DecidableEq

namespace Accept

def entryRaw (accept : Accept) (fileIndex : Option DestinationSlot) : Opcode × Accept :=
  (.accept accept.src fileIndex, { accept with len := sizeOfSockaddrIn6 })

/-- `Result::map` with the peer's address, which panics unless it is an IP address. -/
def withPeer {Fd : Type} (order : ByteOrder) (accept : Accept)
    (accepted : Except Panic (Except OsError Fd)) :
    Except Panic (Except OsError (Fd × SocketAddr)) := do
  match ← accepted with
  | .error e => return .error e
  | .ok fd =>
      let peer ← fromRawAddr order accept.addr accept.len
      return .ok (fd, peer)

def op (order : ByteOrder) :
    Op Accept Opcode (Except OsError (Int32 × SocketAddr)) Cancellation where
  entry := fun accept => accept.entryRaw none
  result := fun accept res => accept.withPeer order (expectFd res)
  cancel := fun _ => .ofBox
  entryCancel := asyncCancel

end Accept

structure AcceptFixed where
  inner : Accept
  slot : DestinationSlot
deriving DecidableEq

def AcceptFixed.op (order : ByteOrder) :
    Op AcceptFixed Opcode (Except OsError SocketAddr) Cancellation where
  entry := fun accept =>
    let (entry, inner) := accept.inner.entryRaw (some accept.slot)
    (entry, { accept with inner := inner })
  result := fun accept res => do
    let accepted ← accept.inner.withPeer order (expectZero res)
    return accepted.map Prod.snd
  cancel := fun accept => (Accept.op order).cancel accept.inner
  entryCancel := asyncCancel

structure AcceptAuto where
  inner : Accept
deriving DecidableEq

def AcceptAuto.op (order : ByteOrder) :
    Op AcceptAuto Opcode (Except OsError (DirectAutoFd × SocketAddr)) Cancellation where
  entry := fun accept =>
    let (entry, inner) := accept.inner.entryRaw (some .auto)
    (entry, ⟨inner⟩)
  result := fun accept res => accept.inner.withPeer order (expectDirect res)
  cancel := fun accept => (Accept.op order).cancel accept.inner
  entryCancel := asyncCancel

structure AcceptMulti where
  src : Target
deriving DecidableEq, Repr

def AcceptMulti.op : MultiOp AcceptMulti Opcode (Except OsError Int32) Cancellation where
  entry := fun accept => (.acceptMulti accept.src false, accept)
  result := fun _ res => expectFd res
  cancel := fun _ => .empty
  entryCancel := asyncCancel
  next := fun _ res => expectFd res

structure AcceptMultiAuto where
  src : Target
deriving DecidableEq, Repr

def AcceptMultiAuto.op :
    MultiOp AcceptMultiAuto Opcode (Except OsError DirectAutoFd) Cancellation where
  entry := fun accept => (.acceptMulti accept.src true, accept)
  result := fun _ res => expectDirect res
  cancel := fun _ => .empty
  entryCancel := asyncCancel
  next := fun _ res => expectDirect res

end Inel.Reactor
