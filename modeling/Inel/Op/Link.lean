import Inel.Op.File

/-!
# Link ops
-/

namespace Inel.Reactor

structure LinkAt where
  fromFd : Int32
  fromPath : List UInt8
  toFd : Int32
  toPath : List UInt8
deriving DecidableEq, Repr

namespace LinkAt

def fromRaw (fromFd : Int32) (source : List UInt8) (toFd : Int32) (target : List UInt8) :
    Except Panic LinkAt := do
  let source ← cString source
  let target ← cString target
  return ⟨fromFd, source, toFd, target⟩

def absolute (source target : List UInt8) : Except Panic LinkAt :=
  fromRaw (-1) source (-1) target

def relative (source target : List UInt8) : Except Panic LinkAt :=
  fromRaw atFdCwd source atFdCwd target

def op : Op LinkAt Opcode (Except OsError Unit) Cancellation where
  entry := fun link => (.linkAt link.fromFd link.fromPath link.toFd link.toPath, link)
  result := fun _ res => expectZero res
  cancel := fun _ => .ofMemory
  entryCancel := asyncCancel

end LinkAt

structure SymlinkAt where
  dir : Int32
  path : List UInt8
  target : List UInt8
deriving DecidableEq, Repr

namespace SymlinkAt

def fromRaw (dir : Int32) (path target : List UInt8) : Except Panic SymlinkAt := do
  let path ← cString path
  let target ← cString target
  return ⟨dir, path, target⟩

def absolute (path target : List UInt8) : Except Panic SymlinkAt := fromRaw (-1) path target

def relative (path target : List UInt8) : Except Panic SymlinkAt := fromRaw atFdCwd path target

def new (path target : List UInt8) : Except Panic SymlinkAt :=
  if isAbsolute path then absolute path target else relative path target

def op : Op SymlinkAt Opcode (Except OsError Unit) Cancellation where
  entry := fun link => (.symlinkAt link.dir link.target link.path, link)
  result := fun _ res => expectZero res
  cancel := fun _ => .ofMemory
  entryCancel := asyncCancel

end SymlinkAt

structure UnlinkAt where
  dir : Int32
  path : List UInt8
  flags : Int32
deriving DecidableEq, Repr

namespace UnlinkAt

def fromRaw (dir : Int32) (path : List UInt8) : Except Panic UnlinkAt := do
  let path ← cString path
  return ⟨dir, path, 0⟩

def absolute (path : List UInt8) : Except Panic UnlinkAt := fromRaw (-1) path

def relative (path : List UInt8) : Except Panic UnlinkAt := fromRaw atFdCwd path

def new (path : List UInt8) : Except Panic UnlinkAt :=
  if isAbsolute path then absolute path else relative path

/-- `AT_REMOVEDIR`. -/
def asDir (unlink : UnlinkAt) : UnlinkAt := { unlink with flags := 512 }

def op : Op UnlinkAt Opcode (Except OsError Unit) Cancellation where
  entry := fun unlink => (.unlinkAt unlink.dir unlink.path unlink.flags, unlink)
  result := fun _ res => expectZero res
  cancel := fun _ => .ofMemory
  entryCancel := asyncCancel

end UnlinkAt

end Inel.Reactor
