import Inel.Base.Transition
import Inel.Reactor.Completion
import Inel.Reactor.Register

/-!
# The ring

The ring pushes entries into the submission queue, hands the queue to the kernel
when it waits and passes completions on to the completion set. What an entry asks
of the kernel is a parameter. The counters are 32 bits wide and wrap around.
-/

namespace Inel.Reactor

open Transitions (bind_eq_ok)

structure Entry (E : Type) where
  request : E
  userData : UInt64
deriving DecidableEq, Repr

/-- One record of the completion queue. -/
structure Cqe where
  userData : UInt64
  result : RingResult
deriving DecidableEq, Repr

/-- The user data of an entry whose completion is ignored. -/
def ignoreKey : UInt64 := 0xFFFFFFFFFFFFFFFE

theorem Key.asU64_ne_ignoreKey (key : Key) : key.asU64 ≠ ignoreKey := by
  intro h
  have hlt := key.raw.toNat_lt
  have hnat : key.raw.toNat = ignoreKey.toNat := by
    rw [← h, Key.asU64, UInt32.toNat_toUInt64]
  rw [hnat] at hlt
  exact absurd hlt (by decide)

theorem Key.asU64_inj {k k' : Key} (h : k.asU64 = k'.asU64) : k = k' := by
  rw [← Key.fromU64_asU64 k, h, Key.fromU64_asU64]

def submissionQueueFull : Panic :=
  .expect "Submission queue is full, consider allocating more submissions"

structure Ring (E W C : Type) where
  /-- How many entries the submission queue has room for. -/
  entries : Nat
  queue : List (Entry E)
  active : UInt32
  detached : UInt32
  canceled : UInt32
  completions : CompletionSet W C
  directFiles : SlotRegister
  fixedBuffers : SlotRegister
  bufferGroups : SlotRegister
deriving DecidableEq, Repr

structure RingOptions where
  submissions : UInt32 := 2048
  fixedBuffers : UInt32 := 256
  bufferGroups : UInt32 := 256
  autoDirectFiles : UInt32 := 256
  manualDirectFiles : UInt32 := 16
deriving DecidableEq, Repr

namespace Ring

variable {E W C : Type}

/-- `entries` is the size the kernel gave the submission queue. -/
def build (options : RingOptions) (entries : Nat) : Ring E W C where
  entries := entries
  queue := []
  active := 0
  detached := 0
  canceled := 0
  completions := .withCapacity options.submissions.toNat
  directFiles := .new options.manualDirectFiles
  fixedBuffers := .new options.fixedBuffers
  bufferGroups := .new options.bufferGroups

def isDone (ring : Ring E W C) : Bool :=
  ring.active + ring.detached == 0 && ring.completions.isEmpty && ring.directFiles.isFull &&
    ring.fixedBuffers.isFull && ring.bufferGroups.isFull

def push (ring : Ring E W C) (request : E) (userData : UInt64) : Except Panic (Ring E W C) :=
  if ring.queue.length < ring.entries then
    .ok { ring with queue := ring.queue ++ [⟨request, userData⟩] }
  else .error submissionQueueFull

/-- `slot` is the index the completion set's slab picks. -/
def submit (ring : Ring E W C) (request : E) (slot : Nat) (waker : W) :
    Except Panic (Key × Ring E W C) := do
  let (key, completions) := ring.completions.insert slot waker
  let ring ← { ring with completions := completions }.push request key.asU64
  return (key, { ring with active := ring.active + 1 })

def submitDetached (ring : Ring E W C) (request : E) : Except Panic (Ring E W C) := do
  let ring ← ring.push request ignoreKey
  return { ring with detached := ring.detached + 1 }

def cancel (ring : Ring E W C) (key : Key) (request : Option E) (cancel : C) :
    Except Panic (Ran Unit (Ring E W C) W C) := do
  let ⟨accepted, completions, effects⟩ ← ring.completions.cancel key cancel
  let ring := { ring with completions := completions }
  if !accepted then return ⟨(), ring, effects⟩
  match request with
  | none => return ⟨(), ring, effects⟩
  | some request =>
      let ring ← ring.push request ignoreKey
      return ⟨(), { ring with detached := ring.detached + 1, canceled := ring.canceled + 1 },
        effects⟩

def checkResult (ring : Ring E W C) (key : Key) :
    Except Panic (Ran (Option RingResult) (Ring E W C) W C) := do
  let ⟨value, completions, effects⟩ ← ring.completions.result key
  return ⟨value, { ring with completions := completions }, effects⟩

/-- Nothing is outstanding by the counters, so there is nothing to wait for. -/
def idle (ring : Ring E W C) : Bool := ring.active + ring.detached == 0

/-- How many completions a wait asks for. -/
def want (ring : Ring E W C) : UInt32 :=
  let want :=
    if ring.active == ring.canceled then 2 * ring.canceled else 1 + 2 * ring.canceled
  if want == 0 && ring.detached > 0 then ring.detached else want

/-- The entries handed to the kernel and the ring once the kernel returns. -/
def submitAndWait (ring : Ring E W C) : List (Entry E) × Ring E W C :=
  if ring.idle then ([], ring)
  else (ring.queue, { ring with queue := [], canceled := 0 })

/-- One turn of the loop over the completion queue. -/
def handleCompletion (ring : Ring E W C) (cqe : Cqe) : Except Panic (Ran Unit (Ring E W C) W C) :=
  if cqe.userData == ignoreKey then
    .ok ⟨(), { ring with detached := ring.detached - 1 }, []⟩
  else do
    let active := if cqe.result.hasMore then ring.active else ring.active - 1
    let ⟨_, completions, effects⟩ ←
      ring.completions.notify (Key.fromU64 cqe.userData) cqe.result
    return ⟨(), { ring with active := active, completions := completions }, effects⟩

def handleCompletions (ring : Ring E W C) : List Cqe → Except Panic (Ran Unit (Ring E W C) W C)
  | [] => .ok ⟨(), ring, []⟩
  | cqe :: cqes => do
      let ⟨_, ring, effects⟩ ← ring.handleCompletion cqe
      let ⟨_, ring, effects'⟩ ← ring.handleCompletions cqes
      return ⟨(), ring, effects ++ effects'⟩

/-- `cqes` is what the kernel left in the completion queue. -/
def wait (ring : Ring E W C) (cqes : List Cqe) :
    Except Panic (List (Entry E) × Ran Unit (Ring E W C) W C) := do
  let (flushed, ring) := ring.submitAndWait
  let ran ← ring.handleCompletions cqes
  return (flushed, ran)

/-! ## What a call that returns did -/

section Returned

variable {ring ring' : Ring E W C} {key : Key} {request : E} {slot : Nat} {waker : W}

theorem push_eq_ok {userData : UInt64} (h : ring.push request userData = .ok ring') :
    ring' = { ring with queue := ring.queue ++ [⟨request, userData⟩] } := by
  simp only [push] at h
  split at h
  · exact (Except.ok.inj h).symm
  · simp at h

theorem submit_eq_ok (h : ring.submit request slot waker = .ok (key, ring')) :
    key = Key.fromUsize slot ∧
      ring' = { ring with
        queue := ring.queue ++ [⟨request, key.asU64⟩],
        completions := (ring.completions.insert slot waker).2,
        active := ring.active + 1 } := by
  obtain ⟨pushed, hpush, hret⟩ := bind_eq_ok h
  obtain ⟨rfl, rfl⟩ := Prod.mk.inj (Except.ok.inj hret)
  exact ⟨rfl, by rw [push_eq_ok hpush]; rfl⟩

theorem submitDetached_eq_ok (h : ring.submitDetached request = .ok ring') :
    ring' = { ring with
      queue := ring.queue ++ [⟨request, ignoreKey⟩], detached := ring.detached + 1 } := by
  obtain ⟨pushed, hpush, hret⟩ := bind_eq_ok h
  rw [← Except.ok.inj hret, push_eq_ok hpush]

/-- The ring after a cancellation that the completion set accepted or refused. -/
def cancelled (ring : Ring E W C) (request : Option E) (accepted : Bool)
    (completions : CompletionSet W C) : Ring E W C :=
  match accepted, request with
  | true, some request => { ring with
      queue := ring.queue ++ [⟨request, ignoreKey⟩], completions := completions,
      detached := ring.detached + 1, canceled := ring.canceled + 1 }
  | _, _ => { ring with completions := completions }

@[simp] theorem cancelled_completions (request : Option E) (accepted : Bool)
    (completions : CompletionSet W C) :
    (ring.cancelled request accepted completions).completions = completions := by
  cases accepted <;> cases request <;> rfl

theorem cancel_eq_ok {request : Option E} {cancel : C} {ran : Ran Unit (Ring E W C) W C}
    (h : ring.cancel key request cancel = .ok ran) :
    ∃ accepted completions,
      ring.completions.cancel key cancel = .ok ⟨accepted, completions, ran.effects⟩ ∧
      ran.state = ring.cancelled request accepted completions := by
  obtain ⟨⟨accepted, completions, effects⟩, hdone, hrest⟩ := bind_eq_ok h
  cases accepted with
  | false =>
      obtain rfl := Except.ok.inj hrest
      exact ⟨false, completions, hdone, rfl⟩
  | true =>
      cases request with
      | none =>
          obtain rfl := Except.ok.inj hrest
          exact ⟨true, completions, hdone, rfl⟩
      | some request =>
          obtain ⟨pushed, hpush, hret⟩ := bind_eq_ok hrest
          obtain rfl := Except.ok.inj hret
          exact ⟨true, completions, hdone, by rw [push_eq_ok hpush]; rfl⟩

theorem checkResult_eq_ok {ran : Ran (Option RingResult) (Ring E W C) W C}
    (h : ring.checkResult key = .ok ran) :
    ∃ completions, ring.completions.result key = .ok ⟨ran.value, completions, ran.effects⟩ ∧
      ran.state = { ring with completions := completions } := by
  obtain ⟨done, hdone, hret⟩ := bind_eq_ok h
  obtain rfl := Except.ok.inj hret
  exact ⟨done.state, hdone, rfl⟩

end Returned

/-! ## Registers -/

inductive RegisterError
  | noSlots (message : String)
  | os
deriving DecidableEq, Repr

/-- `accepted` is the kernel's answer; a slot it rejects is not given back. -/
def registerBuffer (ring : Ring E W C) (accepted : Bool) :
    Except RegisterError UInt32 × Ring E W C :=
  match ring.fixedBuffers.get with
  | none => (.error (.noSlots "No fixed buffer slots available"), ring)
  | some (slot, register) =>
      let ring := { ring with fixedBuffers := register }
      if accepted then (.ok slot, ring) else (.error .os, ring)

def unregisterBuffer (ring : Ring E W C) (slot : UInt32) : Ring E W C :=
  { ring with fixedBuffers := ring.fixedBuffers.remove slot }

def getDirectSlot (ring : Ring E W C) : Except RegisterError UInt32 × Ring E W C :=
  match ring.directFiles.get with
  | none => (.error (.noSlots "No manual direct file slots available"), ring)
  | some (slot, register) => (.ok slot, { ring with directFiles := register })

def releaseDirectSlot (ring : Ring E W C) (slot : UInt32) : Ring E W C :=
  { ring with directFiles := ring.directFiles.remove slot }

def getBufferGroup (ring : Ring E W C) : Except RegisterError UInt32 × Ring E W C :=
  match ring.bufferGroups.get with
  | none => (.error (.noSlots "No manual buffer group slots available"), ring)
  | some (slot, register) => (.ok slot, { ring with bufferGroups := register })

def releaseBufferGroup (ring : Ring E W C) (slot : UInt32) : Ring E W C :=
  { ring with bufferGroups := ring.bufferGroups.remove slot }

end Ring

end Inel.Reactor
