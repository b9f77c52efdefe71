import Inel.Op.Basic

/-!
# Ops on the registered file table
-/

namespace Inel.Reactor

/-- The kernel replaces the descriptor by the slot it put the file in. -/
structure RegisterFile where
  fd : Int32
deriving DecidableEq, Repr

def RegisterFile.op : Op RegisterFile Opcode (Except OsError DirectAutoFd) Cancellation where
  entry := fun register => (.filesUpdate 1 none, register)
  result := fun register res =>
    if res.ret = 1 then .ok (.ok (.ofRet register.fd))
    else if res.ret < 0 then .ok (.error ⟨res.ret⟩)
    else .error (.unreachable "")
  cancel := fun _ => .empty
  entryCancel := fun _ => none

structure InstallSlot where
  slot : UInt32
deriving DecidableEq, Repr

def InstallSlot.op : Op InstallSlot Opcode (Except OsError Int32) Cancellation where
  entry := fun install => (.fixedFdInstall install.slot 0, install)
  result := fun _ res => expectFd res
  cancel := fun _ => .empty
  entryCancel := fun _ => none

end Inel.Reactor
