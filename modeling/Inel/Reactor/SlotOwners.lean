import Inel.Op.Basic
import Inel.Reactor.Lifetime

/-!
# Owners of slots

A fixed buffer and a manual direct file own a slot of one register each and give
it back as they are dropped, whatever entries still name it. Every other call on
the ring leaves the two registers alone.
-/

namespace Inel.Reactor

/-- The tables of the kernel whose slots an entry can name. -/
inductive Table
  | fixedBuffers
  | directFiles
deriving DecidableEq, Repr

structure SlotName where
  table : Table
  slot : UInt32
deriving DecidableEq, Repr

variable {E W C : Type}

def Ring.table (ring : Ring E W C) : Table → SlotRegister
  | .fixedBuffers => ring.fixedBuffers
  | .directFiles => ring.directFiles

/-! ## Fixed buffers -/

/-- `inner` is empty once the memory was given to a cancellation. -/
structure Fixed where
  inner : Option (List UInt8)
  slot : UInt32
deriving DecidableEq, Repr

namespace Fixed

def register (buffer : List UInt8) (accepted : Bool) (ring : Ring E W C) :
    Except Ring.RegisterError Fixed × Ring E W C :=
  match ring.registerBuffer accepted with
  | (.ok slot, ring) => (.ok ⟨some buffer, slot⟩, ring)
  | (.error err, ring) => (.error err, ring)

def drop (fixed : Fixed) (ring : Ring E W C) : Ring E W C := ring.unregisterBuffer fixed.slot

/-- `From<Fixed>`, at whose end the rest of the buffer is dropped. -/
def intoCancellation (fixed : Fixed) (ring : Ring E W C) :
    Except Panic (Cancellation × Ring E W C) :=
  match fixed.inner with
  | some _ => .ok (.ofMemory, { fixed with inner := none }.drop ring)
  | none => .error (.panicked "called `Option::unwrap()` on a `None` value")

/-- How an entry names the buffer. -/
def bufIndex (fixed : Fixed) : UInt16 := fixed.slot.toUInt16

end Fixed

/-! ## Direct files -/

structure DirectFd where
  slot : UInt32
deriving DecidableEq, Repr

namespace DirectFd

def get (ring : Ring E W C) : Except Ring.RegisterError DirectFd × Ring E W C :=
  match ring.getDirectSlot with
  | (.ok slot, ring) => (.ok ⟨slot⟩, ring)
  | (.error err, ring) => (.error err, ring)

def release (direct : DirectFd) (ring : Ring E W C) : Ring E W C :=
  ring.releaseDirectSlot direct.slot

def asSource (direct : DirectFd) : Target := .fixed direct.slot

end DirectFd

/-- The slot of an automatic one was chosen by the kernel, past the register's. -/
inductive OwnedDirect
  | manual (direct : DirectFd)
  | auto (direct : DirectAutoFd)
deriving DecidableEq, Repr

namespace OwnedDirect

def asSource : OwnedDirect → Target
  | .manual direct => direct.asSource
  | .auto direct => direct.asSource

def reserve (ring : Ring E W C) : Except Ring.RegisterError OwnedDirect × Ring E W C :=
  match DirectFd.get ring with
  | (.ok direct, ring) => (.ok (.manual direct), ring)
  | (.error err, ring) => (.error err, ring)

/-- `close` is the entry of `op::Close`. -/
def drop (close : Target → E) (ring : Ring E W C) : OwnedDirect → Except Panic (Ring E W C)
  | .manual direct => .ok (direct.release ring)
  | .auto direct => ring.submitDetached (close direct.asSource)

end OwnedDirect

/-! ## What an entry names -/

def Fixed.names (fixed : Fixed) : List SlotName := [⟨.fixedBuffers, fixed.bufIndex.toUInt32⟩]

def Target.names : Target → List SlotName
  | .fixed slot => [⟨.directFiles, slot⟩]
  | .fd _ => []

/-! ## Calls that leave the registers alone -/

namespace Ring

variable {ring ring' : Ring E W C} {key : Key}

theorem submit_table {request : E} {slot : Nat} {waker : W}
    (h : ring.submit request slot waker = .ok (key, ring')) : ring'.table = ring.table := by
  rw [(submit_eq_ok h).2]
  rfl

theorem submitDetached_table {request : E} (h : ring.submitDetached request = .ok ring') :
    ring'.table = ring.table := by
  rw [submitDetached_eq_ok h]
  rfl

theorem cancel_table {request : Option E} {cancel : C} {ran : Ran Unit (Ring E W C) W C}
    (h : ring.cancel key request cancel = .ok ran) : ran.state.table = ring.table := by
  obtain ⟨accepted, completions, -, hstate⟩ := cancel_eq_ok h
  rw [hstate]
  cases accepted <;> cases request <;> rfl

theorem checkResult_table {ran : Ran (Option RingResult) (Ring E W C) W C}
    (h : ring.checkResult key = .ok ran) : ran.state.table = ring.table := by
  obtain ⟨completions, -, hstate⟩ := checkResult_eq_ok h
  rw [hstate]
  rfl

theorem submitAndWait_table (ring : Ring E W C) : ring.submitAndWait.2.table = ring.table := by
  unfold submitAndWait
  split <;> rfl

theorem handleCompletion_table {cqe : Cqe} {ran : Ran Unit (Ring E W C) W C}
    (h : ring.handleCompletion cqe = .ok ran) : ran.state.table = ring.table := by
  unfold handleCompletion at h
  split at h
  · rw [← Except.ok.inj h]
    rfl
  · obtain ⟨notified, -, hret⟩ := Transitions.bind_eq_ok h
    rw [← Except.ok.inj hret]
    rfl

end Ring

theorem RingCall.run_table {call : RingCall E W C} {ring ring' : Ring E W C}
    (h : call.run ring = .ok ring') : ring'.table = ring.table := by
  cases call with
  | submit request slot waker =>
      obtain ⟨⟨key, pushed⟩, hsubmit, hret⟩ := Transitions.bind_eq_ok h
      obtain rfl := Except.ok.inj hret
      exact Ring.submit_table hsubmit
  | submitDetached request => exact Ring.submitDetached_table h
  | cancel key request cancel =>
      obtain ⟨ran, hcancel, hret⟩ := Transitions.bind_eq_ok h
      obtain rfl := Except.ok.inj hret
      exact Ring.cancel_table hcancel
  | checkResult key =>
      obtain ⟨ran, hcheck, hret⟩ := Transitions.bind_eq_ok h
      obtain rfl := Except.ok.inj hret
      exact Ring.checkResult_table hcheck
  | enter =>
      obtain rfl := Except.ok.inj h
      exact ring.submitAndWait_table
  | completion cqe =>
      obtain ⟨ran, hhandle, hret⟩ := Transitions.bind_eq_ok h
      obtain rfl := Except.ok.inj hret
      exact Ring.handleCompletion_table hhandle

/-! ## Handing out and giving back -/

section Tables

variable {ring ring' : Ring E W C} {buffer : List UInt8} {accepted : Bool}

/-- The ring after one of its registers became `register`. -/
def Ring.Retabled (ring ring' : Ring E W C) (table : Table) (register : SlotRegister) : Prop :=
  ring'.table = Function.update ring.table table register

theorem Fixed.register_spec {out : Except Ring.RegisterError Fixed}
    (h : Fixed.register buffer accepted ring = (out, ring')) :
    (∃ message, out = .error (.noSlots message) ∧ ring' = ring) ∨
    ∃ slot register, ring.fixedBuffers.get = some (slot, register) ∧
      ring.Retabled ring' .fixedBuffers register ∧
      out = if accepted then .ok ⟨some buffer, slot⟩ else .error .os := by
  cases hget : ring.fixedBuffers.get with
  | none =>
      simp only [Fixed.register, Ring.registerBuffer, hget] at h
      obtain ⟨rfl, rfl⟩ := Prod.mk.inj h
      exact Or.inl ⟨_, rfl, rfl⟩
  | some got =>
      obtain ⟨slot, register⟩ := got
      refine Or.inr ⟨slot, register, rfl, ?_⟩
      have htable : Ring.Retabled ring { ring with fixedBuffers := register }
          .fixedBuffers register := by
        funext table
        cases table <;> rfl
      cases accepted <;> simp only [Fixed.register, Ring.registerBuffer, hget, if_true,
        Bool.false_eq_true, if_false] at h <;> obtain ⟨rfl, rfl⟩ := Prod.mk.inj h
      · exact ⟨htable, rfl⟩
      · exact ⟨htable, rfl⟩

theorem OwnedDirect.reserve_spec {out : Except Ring.RegisterError OwnedDirect}
    (h : OwnedDirect.reserve ring = (out, ring')) :
    (∃ err, out = .error err ∧ ring' = ring) ∨
    ∃ slot register, ring.directFiles.get = some (slot, register) ∧
      ring.Retabled ring' .directFiles register ∧ out = .ok (.manual ⟨slot⟩) := by
  cases hget : ring.directFiles.get with
  | none =>
      simp only [OwnedDirect.reserve, DirectFd.get, Ring.getDirectSlot, hget] at h
      obtain ⟨rfl, rfl⟩ := Prod.mk.inj h
      exact Or.inl ⟨_, rfl, rfl⟩
  | some got =>
      obtain ⟨slot, register⟩ := got
      simp only [OwnedDirect.reserve, DirectFd.get, Ring.getDirectSlot, hget] at h
      obtain ⟨rfl, rfl⟩ := Prod.mk.inj h
      refine Or.inr ⟨slot, register, rfl, ?_, rfl⟩
      funext table
      cases table <;> rfl

theorem Fixed.drop_retabled (fixed : Fixed) (ring : Ring E W C) :
    ring.Retabled (fixed.drop ring) .fixedBuffers (ring.fixedBuffers.remove fixed.slot) := by
  funext table
  cases table <;> rfl

theorem Fixed.intoCancellation_eq_ok {fixed : Fixed} {cancel : Cancellation}
    (h : fixed.intoCancellation ring = .ok (cancel, ring')) :
    cancel = .ofMemory ∧ ring' = fixed.drop ring := by
  unfold Fixed.intoCancellation at h
  split at h
  · obtain ⟨rfl, rfl⟩ := Prod.mk.inj (Except.ok.inj h)
    exact ⟨rfl, rfl⟩
  · simp at h

theorem DirectFd.release_retabled (direct : DirectFd) (ring : Ring E W C) :
    ring.Retabled (direct.release ring) .directFiles (ring.directFiles.remove direct.slot) := by
  funext table
  cases table <;> rfl

end Tables

end Inel.Reactor
