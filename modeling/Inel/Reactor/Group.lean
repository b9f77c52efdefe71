import Inel.Base.Slab
import Inel.Reactor.Ring

/-!
# Buffer groups

A group keeps the buffers it gave to the kernel in a slab; the kernel names a
buffer by the slab index, cut to sixteen bits, and the group by its slot, cut
likewise. Buffers that come back for a read that was given up are set aside.
-/

namespace Inel.Reactor

open SlotTable

/-- `BufferGroupId::index`. -/
def groupIndex (id : UInt32) : UInt16 := id.toUInt16

/-- The buffer set aside last is the head of `cancelled`. -/
structure ReadBufferGroup (B : Type) where
  id : UInt32
  buffers : Slab B
  cancelled : List B
deriving DecidableEq, Repr

/-- `Slab::remove` at a vacant index. -/
def invalidKey : Panic := .panicked "invalid key"

namespace ReadBufferGroup

variable {E W C B : Type}

def register (ring : Ring E W C) :
    Except Ring.RegisterError (ReadBufferGroup B) × Ring E W C :=
  match ring.getBufferGroup with
  | (.ok id, ring) => (.ok ⟨id, .empty, []⟩, ring)
  | (.error err, ring) => (.error err, ring)

/-- The buffers that are left are dropped with the group. -/
def release (group : ReadBufferGroup B) (ring : Ring E W C) : Ring E W C :=
  ring.releaseBufferGroup group.id

def take (group : ReadBufferGroup B) (id : UInt16) : Except Panic (B × ReadBufferGroup B) :=
  match group.buffers.get id.toNat with
  | some buffer => .ok (buffer, { group with buffers := group.buffers.remove id.toNat })
  | none => .error invalidKey

/-- `slot` is the index the slab picks. -/
def put (group : ReadBufferGroup B) (slot : Nat) (buffer : B) : UInt16 × ReadBufferGroup B :=
  (.ofNat slot, { group with buffers := group.buffers.insert slot buffer })

def clear (group : ReadBufferGroup B) : ReadBufferGroup B := { group with buffers := .empty }

def present (group : ReadBufferGroup B) : Nat := group.buffers.len

def markCancelled (group : ReadBufferGroup B) (id : UInt16) :
    Except Panic (ReadBufferGroup B) := do
  let (buffer, group) ← group.take id
  return { group with cancelled := buffer :: group.cancelled }

def getCancelled (group : ReadBufferGroup B) : Option (B × ReadBufferGroup B) :=
  match group.cancelled with
  | buffer :: cancelled => some (buffer, { group with cancelled := cancelled })
  | [] => none

/-! ## What a call that returns did -/

section Returned

variable {group group' : ReadBufferGroup B} {id : UInt16} {buffer : B}

theorem take_eq_ok :
    group.take id = .ok (buffer, group') ↔
      group.buffers.get id.toNat = some buffer ∧
        group' = { group with buffers := group.buffers.remove id.toNat } := by
  unfold take
  cases hget : group.buffers.get id.toNat with
  | none => simp
  | some present =>
      simp only [Except.ok.injEq, Prod.mk.injEq, Option.some.injEq]
      exact and_congr_right fun _ => eq_comm

theorem markCancelled_eq_ok (h : group.markCancelled id = .ok group') :
    ∃ buffer, group.buffers.get id.toNat = some buffer ∧
      group' = { group with
        buffers := group.buffers.remove id.toNat, cancelled := buffer :: group.cancelled } := by
  unfold markCancelled at h
  cases htake : group.take id with
  | error panic => simp [htake, bind, Except.bind] at h
  | ok taken =>
      cases taken with
      | mk buffer rest =>
          have hspec := take_eq_ok.mp htake
          rw [htake] at h
          refine ⟨buffer, hspec.1, ?_⟩
          rw [← Except.ok.inj h, hspec.2]

end Returned

end ReadBufferGroup

end Inel.Reactor
