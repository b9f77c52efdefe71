import Inel.Reactor.SlotOwners

/-!
# Registrations that fail

A buffer is given a slot before the kernel is asked to take it. The slot of a
buffer that the kernel refuses is in no handle, so nothing gives it back: the
register has a slot fewer for good, and no ring with such a slot is ever done.
-/

namespace Inel.Reactor

open Transitions

/-! ## Slots that are left -/

namespace SlotRegister

variable {register register' : SlotRegister} {slot : UInt32}

/-- How many slots can be handed out with none given back. -/
def available (register : SlotRegister) : Nat :=
  register.vacant.length + (register.size.toNat - register.len.toNat)

theorem available_of_get (hle : register.len.toNat ≤ register.size.toNat)
    (h : register.get = some (slot, register')) :
    register'.len.toNat ≤ register'.size.toNat ∧
      register'.available + 1 = register.available := by
  rcases get_spec h with ⟨vacant, hvacant, rfl⟩ | ⟨hvacant, hne, -, rfl⟩
  · simp only [available, hvacant, List.length_cons]
    omega
  · obtain ⟨hlen, hlt⟩ := len_succ hle hne
    simp only [available, hlen]
    omega

end SlotRegister

/-! ## Registrations in a row -/

/-- What registers a buffer, and whether the kernel takes it. `fix` registers the
buffer of its reader or writer. -/
inductive FixedCall
  | new (size : Nat) (accepted : Bool)
  | register (buffer : List UInt8) (accepted : Bool)
  | fix (buffer : List UInt8) (accepted : Bool)
deriving DecidableEq, Repr

variable {E W C : Type} {ring ring' : Ring E W C}

def Fixed.new (size : Nat) (accepted : Bool) (ring : Ring E W C) :
    Except Ring.RegisterError Fixed × Ring E W C :=
  Fixed.register (List.replicate size 0) accepted ring

def FixedCall.run (ring : Ring E W C) :
    FixedCall → Except Ring.RegisterError Fixed × Ring E W C
  | .new size accepted => Fixed.new size accepted ring
  | .register buffer accepted => Fixed.register buffer accepted ring
  | .fix buffer accepted => Fixed.register buffer accepted ring

namespace Ring

/-- `n` registrations in a row succeed if the kernel takes the buffers. -/
def registers (ring : Ring E W C) : Nat → Bool
  | 0 => true
  | n + 1 =>
      match ring.registerBuffer true with
      | (.ok _, ring) => ring.registers n
      | (.error _, _) => false

/-- Nothing of the registers was used up. -/
structure Unspent (ring ring' : Ring E W C) : Prop where
  table : ring'.table = ring.table
  groups : ring'.bufferGroups = ring.bufferGroups
  registers : ∀ n, ring'.registers n = ring.registers n
  done : ring'.isDone = ring.isDone

/-- The mark of the fixed buffers is within their table. -/
def Within (ring : Ring E W C) : Prop :=
  ring.fixedBuffers.len.toNat ≤ ring.fixedBuffers.size.toNat

end Ring

/-! ## Any ring -/

/-- A call about entries and their results, or one about a register. -/
inductive RingMove (E W C : Type)
  | entries (call : RingCall E W C)
  | registerBuffer (accepted : Bool)
  | unregisterBuffer (slot : UInt32)
  | getDirectSlot
  | releaseDirectSlot (slot : UInt32)
  | getBufferGroup
  | releaseBufferGroup (slot : UInt32)

namespace RingMove

def run (ring : Ring E W C) : RingMove E W C → Except Panic (Ring E W C)
  | .entries call => call.run ring
  | .registerBuffer accepted => .ok (ring.registerBuffer accepted).2
  | .unregisterBuffer slot => .ok (ring.unregisterBuffer slot)
  | .getDirectSlot => .ok ring.getDirectSlot.2
  | .releaseDirectSlot slot => .ok (ring.releaseDirectSlot slot)
  | .getBufferGroup => .ok ring.getBufferGroup.2
  | .releaseBufferGroup slot => .ok (ring.releaseBufferGroup slot)

def admitted (ring : Ring E W C) : RingMove E W C → Bool
  | .entries call => call.admitted ring
  | _ => true

end RingMove

namespace Ring

def machine (E W C : Type) : Machine (Ring E W C) (RingMove E W C) Panic where
  init ring := ∃ options entries, ring = .build options entries
  permits ring move := move.admitted ring = true
  exec := RingMove.run

theorem Within.registerBuffer {accepted : Bool} (h : ring.Within) :
    (ring.registerBuffer accepted).2.Within := by
  cases hget : ring.fixedBuffers.get with
  | none => simpa only [Ring.registerBuffer, hget] using h
  | some got =>
      have hle := (SlotRegister.available_of_get h hget).1
      rw [Ring.registerBuffer, hget]
      cases accepted with
      | true => exact hle
      | false => exact hle

/-- The mark is raised only as buffers are registered. -/
theorem Within.step {move : RingMove E W C} (h : ring.Within) (hok : move.run ring = .ok ring') :
    ring'.Within := by
  have hsame : ring'.fixedBuffers = ring.fixedBuffers → ring'.Within := by
    intro heq
    rw [Within, heq]
    exact h
  cases move with
  | entries call => exact hsame (congrFun (RingCall.run_table hok) .fixedBuffers)
  | registerBuffer accepted =>
      obtain rfl := Except.ok.inj hok
      exact h.registerBuffer
  | unregisterBuffer slot =>
      obtain rfl := Except.ok.inj hok
      change (ring.fixedBuffers.remove slot).len.toNat ≤ (ring.fixedBuffers.remove slot).size.toNat
      unfold SlotRegister.remove
      split
      · exact h
      · exact h
  | getDirectSlot =>
      obtain rfl := Except.ok.inj hok
      apply hsame
      unfold Ring.getDirectSlot
      split <;> rfl
  | releaseDirectSlot slot =>
      obtain rfl := Except.ok.inj hok
      exact hsame rfl
  | getBufferGroup =>
      obtain rfl := Except.ok.inj hok
      apply hsame
      unfold Ring.getBufferGroup
      split <;> rfl
  | releaseBufferGroup slot =>
      obtain rfl := Except.ok.inj hok
      exact hsame rfl

theorem Within.of_reach (h : Reach (machine E W C) Any ring) : ring.Within := by
  apply h.invariant
  · rintro ring ⟨options, entries, rfl⟩
    exact Nat.zero_le _
  · intro ring move ring' hwithin _ _ hok
    exact Within.step hwithin hok

def single : Ring Unit Unit Unit := .build { fixedBuffers := 1 } 4

end Ring

end Inel.Reactor
