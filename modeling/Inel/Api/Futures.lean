import Inel.Api.Chains
import Inel.Api.OpenFile
import Inel.Base.Async
import Inel.Op.Direct
import Inel.Op.Net

/-!
# Functions that open files

The asynchronous functions that get a descriptor or a slot from the kernel. They wait for
one request after another, and whoever owns a file closes it as it is dropped.
-/

namespace Inel.Api

open Inel.Reactor
open Asyncs

/-- `std::io::Error`, of the system or of `for_each_addr`. -/
inductive IoError
  | os (err : OsError)
  | invalidInput (message : String)
deriving DecidableEq, Repr

/-- An answer to a request, with what the kernel wrote for it: the peer of an accepted
connection, the slot of a registered descriptor or the status of a file. -/
structure Answer where
  res : RingResult
  addr : SocketAddrCRepr
  len : UInt32
  slot : Int32
  stats : List UInt8
deriving DecidableEq

/-- A `File`, `TcpStream` or `TcpListener` is an owned descriptor, and the direct ones are an
owned slot. -/
inductive Owner
  | fd (owned : OwnedFd)
  | direct (owned : OwnedDirect)
deriving DecidableEq, Repr

abbrev Future (α : Type) := ExceptT IoError (Async Opcode Answer Owner Panic) α

def reply {Out : Type} : Except Panic (Except OsError Out) →
    Async Opcode Answer Owner Panic (Except IoError Out)
  | .ok out => .done (out.mapError .os)
  | .error panic => .fail panic

/-- `run_on(GlobalReactor)`, awaited. -/
def runOn {O Out : Type} (op : Op O Opcode (Except OsError Out) Cancellation) (o : O)
    (wrote : Answer → O → O) : Future Out :=
  ExceptT.mk <| .wait (op.entry o).1 [] fun answer =>
    reply (op.result (wrote answer (op.entry o).2) answer.res)

/-- An op for which the kernel writes nothing. -/
def run {O Out : Type} (op : Op O Opcode (Except OsError Out) Cancellation) (o : O) :
    Future Out :=
  runOn op o fun _ o => o

def orPanic {α : Type} : Except Panic α → Future α
  | .ok value => ExceptT.mk (.done (.ok value))
  | .error panic => ExceptT.mk (.fail panic)

def asSlot : OwnedDirect → UInt32
  | .manual direct => direct.slot
  | .auto direct => direct.slot

/-! ## Files -/

namespace OpenOptions

def open_ (options : Fs.OpenOptions) (path : List UInt8) : Future OwnedFd := do
  let (flags, mode) := options.rawOpts
  let openAt ← orPanic (OpenAt.new path flags)
  let fd ← run OpenAt.op { openAt with mode := mode }
  return ⟨fd⟩

def openDirect (options : Fs.OpenOptions) (path : List UInt8) : Future OwnedDirect := do
  let (flags, mode) := options.rawOpts
  let openAt ← orPanic (OpenAt.new path flags)
  let slot ← run OpenAtAuto.op ⟨{ openAt with mode := mode }⟩
  return .auto slot

end OpenOptions

namespace File

def open_ (path : List UInt8) : Future OwnedFd := OpenOptions.open_ Fs.openOptions path

def create (path : List UInt8) : Future OwnedFd := OpenOptions.open_ Fs.createOptions path

/-- `STATX_BASIC_STATS | STATX_BTIME`. -/
def statxMask : UInt32 := 4095

def metadata (file : OwnedFd) : Future (List UInt8) :=
  runOn Statx.op ⟨file.fd, statxMask, []⟩ fun answer statx => { statx with stats := answer.stats }

def makeDirect (file : OwnedFd) : Future OwnedDirect := do
  let slot ← runOn RegisterFile.op ⟨file.fd⟩ fun answer _ => ⟨answer.slot⟩
  return .auto slot

end File

def DirectFile.makeRegular (file : OwnedDirect) : Future OwnedFd := do
  let fd ← run InstallSlot.op ⟨asSlot file⟩
  return ⟨fd⟩

namespace Fs

/-- The file is dropped at the end. -/
def metadata (path : List UInt8) : Future (List UInt8) := do
  let file ← File.open_ path
  Async.within (.fd file) (File.metadata file)

/-- The file is dropped as soon as it is there. -/
def createFile (path : List UInt8) : Future Unit := do
  let file ← File.create path
  Async.within (.fd file) (return ())

end Fs

/-! ## Sockets -/

/-- Tries one address after another, and keeps the last error. -/
def tryEach {T : Type} (f : SocketAddr → Future T) (lastError : Option IoError) :
    List SocketAddr → Future T
  | [] => throw (lastError.getD (.invalidInput "could not resolve any addresses"))
  | addr :: addrs => ExceptT.mk <| (f addr).run.bind fun
      | .ok res => .done (.ok res)
      | .error err => (tryEach f (some err) addrs).run

/-- `addrs` is what `to_socket_addrs` says. -/
def forEachAddr {T : Type} (addrs : Except IoError (List SocketAddr))
    (f : SocketAddr → Future T) : Future T := do
  let addrs ← ExceptT.mk (.done addrs)
  tryEach f none addrs

section Sockets

variable (order : ByteOrder)

/-- An op to accept with, before the kernel wrote the peer. -/
def acceptFrom (source : Target) : Accept := ⟨source, ⟨Vector.replicate 28 0⟩, 0⟩

def Answer.peer (answer : Answer) (accept : Accept) : Accept :=
  { accept with addr := answer.addr, len := answer.len }

namespace TcpListener

def bindTo (addr : SocketAddr) : Future OwnedFd := do
  let sock ← run Socket.op (.streamFromAddr addr)
  Async.owning (.fd ⟨sock⟩) do
    run Bind.op (.new order (.fd sock) addr)
    run Listen.op ⟨.fd sock, Reactor.TcpListener.defaultListenBacklog⟩
  return ⟨sock⟩

def bind (addrs : Except IoError (List SocketAddr)) : Future OwnedFd :=
  forEachAddr addrs (bindTo order)

def accept (listener : OwnedFd) : Future (OwnedFd × SocketAddr) := do
  let (sock, peer) ← runOn (Accept.op order) (acceptFrom (.fd listener.fd)) Answer.peer
  return (⟨sock⟩, peer)

end TcpListener

namespace TcpStream

def connectTo (addr : SocketAddr) : Future OwnedFd := do
  let sock ← run Socket.op (.streamFromAddr addr)
  Async.owning (.fd ⟨sock⟩) (run Connect.op (.new order (.fd sock) addr))
  return ⟨sock⟩

def connect (addrs : Except IoError (List SocketAddr)) : Future OwnedFd :=
  forEachAddr addrs (connectTo order)

def connectDirectTo (addr : SocketAddr) : Future OwnedDirect := do
  let slot ← run SocketAuto.op ⟨.streamFromAddr addr⟩
  Async.owning (.direct (.auto slot)) (run Connect.op (.new order slot.asSource addr))
  return .auto slot

def connectDirect (addrs : Except IoError (List SocketAddr)) : Future OwnedDirect :=
  forEachAddr addrs (connectDirectTo order)

def makeDirect (stream : OwnedFd) : Future OwnedDirect := do
  let slot ← runOn RegisterFile.op ⟨stream.fd⟩ fun answer _ => ⟨answer.slot⟩
  return .auto slot

end TcpStream

def DirectTcpListener.accept (listener : OwnedDirect) : Future (OwnedDirect × SocketAddr) := do
  let (slot, peer) ← runOn (AcceptAuto.op order) ⟨acceptFrom listener.asSource⟩
    fun answer accept => ⟨answer.peer accept.inner⟩
  return (.auto slot, peer)

end Sockets

def DirectTcpStream.makeRegular (stream : OwnedDirect) : Future OwnedFd := do
  let fd ← run InstallSlot.op ⟨asSlot stream⟩
  return ⟨fd⟩

/-! ## Calls -/

inductive ApiCall
  | open_ (options : Fs.OpenOptions) (path : List UInt8)
  | openDirect (options : Fs.OpenOptions) (path : List UInt8)
  | metadata (path : List UInt8)
  | createFile (path : List UInt8)
  | fileMakeDirect (file : OwnedFd)
  | fileMakeRegular (file : OwnedDirect)
  | bind (addrs : Except IoError (List SocketAddr))
  | accept (listener : OwnedFd)
  | connect (addrs : Except IoError (List SocketAddr))
  | connectDirect (addrs : Except IoError (List SocketAddr))
  | streamMakeDirect (stream : OwnedFd)
  | acceptDirect (listener : OwnedDirect)
  | streamMakeRegular (stream : OwnedDirect)

/-- The future of a call, and the owner in what it returns. -/
def ApiCall.future (order : ByteOrder) : ApiCall → Future (Option Owner)
  | .open_ options path => return some (.fd (← OpenOptions.open_ options path))
  | .openDirect options path => return some (.direct (← OpenOptions.openDirect options path))
  | .metadata path => do let _ ← Fs.metadata path; return none
  | .createFile path => do Fs.createFile path; return none
  | .fileMakeDirect file => return some (.direct (← File.makeDirect file))
  | .fileMakeRegular file => return some (.fd (← DirectFile.makeRegular file))
  | .bind addrs => return some (.fd (← TcpListener.bind order addrs))
  | .accept listener => return some (.fd (← TcpListener.accept order listener).1)
  | .connect addrs => return some (.fd (← TcpStream.connect order addrs))
  | .connectDirect addrs => return some (.direct (← TcpStream.connectDirect order addrs))
  | .streamMakeDirect stream => return some (.direct (← TcpStream.makeDirect stream))
  | .acceptDirect listener =>
      return some (.direct (← DirectTcpListener.accept order listener).1)
  | .streamMakeRegular stream => return some (.fd (← DirectTcpStream.makeRegular stream))

end Inel.Api
