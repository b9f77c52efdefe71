import Inel.Reactor.SlotOwners

/-!
# Slots of a ring

Fixed buffers and direct files come and go on one ring while entries that name
their slots are with the kernel. A slot goes back to its register as its owner is
dropped, and a submission dropped in flight drops the buffer of its op with it,
so an entry keeps a slot from being handed out only as long as the owner stays.
-/

namespace Inel.Reactor

open SlotTable Transitions

/-- Who was handed a slot. A slot whose registration the kernel refused stays out. -/
inductive SlotOwner
  | fixed (buffer : Fixed)
  | direct (file : DirectFd)
  | refused (slot : UInt32)
deriving DecidableEq, Repr

namespace SlotOwner

def name : SlotOwner → SlotName
  | .fixed buffer => ⟨.fixedBuffers, buffer.slot⟩
  | .direct file => ⟨.directFiles, file.slot⟩
  | .refused slot => ⟨.fixedBuffers, slot⟩

/-- What the entry of an op with this buffer or file names. -/
def names : SlotOwner → List SlotName
  | .fixed buffer => buffer.names
  | .direct file => file.asSource.names
  | .refused _ => []

def isFixed : SlotOwner → Bool
  | .fixed _ => true
  | _ => false

def isDirect : SlotOwner → Bool
  | .direct _ => true
  | _ => false

end SlotOwner

/-- `kept` until the slot was given back. -/
structure Holding where
  owner : SlotOwner
  kept : Bool
deriving DecidableEq, Repr

/-- An entry that names slots and whose last completion was not handled yet. -/
structure InFlight where
  /-- Whose slots it names, and under which names. -/
  uses : List (Nat × SlotName)
  /-- The buffer that the op has. -/
  buffer : Option Nat
  userData : UInt64
  /-- The submission was dropped. -/
  abandoned : Bool
deriving DecidableEq, Repr

structure Slots (W : Type) where
  ring : Ring (List SlotName) W Cancellation
  owners : List Holding
  inFlight : List InFlight

inductive SlotMove (W : Type)
  | register (buffer : List UInt8) (accepted : Bool)
  | reserve
  | drop (i : Nat)
  /-- An op with a buffer, with sources, or with both is polled first. -/
  | submit (buffer : Option Nat) (sources : List Nat) (slot : Nat) (waker : W)
  | submitDetached (sources : List Nat)
  /-- A submission is dropped; `cancel` is what its op turns into if it has no buffer. -/
  | abandon (j : Nat) (request : Option (List SlotName)) (cancel : Cancellation)
  | completion (j : Nat) (result : RingResult)
  | others (call : RingCall (List SlotName) W Cancellation)

def RingCall.request {E W C : Type} : RingCall E W C → Option E
  | .submit request _ _ => some request
  | .submitDetached request => some request
  | .cancel _ request _ => request
  | _ => none

/-- The kernel refuses larger tables of buffers, upon which `build` panics. -/
def maxFixedBuffers : Nat := 2 ^ 14

namespace Slots

variable {W : Type}

def usesOf (s : Slots W) (users : List Nat) : List (Nat × SlotName) :=
  users.flatMap fun i => ((s.owners[i]?).elim [] (·.owner.names)).map (i, ·)

/-- `Op::cancel`, which drops the rest of a fixed buffer. -/
def cancelOp (s : Slots W) (buffer : Option Nat) (cancel : Cancellation) :
    Except Panic (Cancellation × Slots W) :=
  match buffer with
  | none => .ok (cancel, s)
  | some i =>
      match s.owners[i]? with
      | some ⟨.fixed fixed, _⟩ => do
          let (cancel, ring) ← fixed.intoCancellation s.ring
          return (cancel, { s with ring := ring, owners := s.owners.set i ⟨.fixed fixed, false⟩ })
      | _ => .ok (cancel, s)

def exec (s : Slots W) : SlotMove W → Except Panic (Slots W)
  | .register buffer accepted =>
      match Fixed.register buffer accepted s.ring with
      | (.ok fixed, ring) =>
          .ok { s with ring := ring, owners := s.owners ++ [⟨.fixed fixed, true⟩] }
      | (.error .os, ring) =>
          let slot := s.ring.fixedBuffers.get.map (·.1)
          .ok { s with ring := ring, owners := s.owners ++ (slot.map (⟨.refused ·, true⟩)).toList }
      | (.error (.noSlots _), ring) => .ok { s with ring := ring }
  | .reserve =>
      match OwnedDirect.reserve s.ring with
      | (.ok (.manual file), ring) =>
          .ok { s with ring := ring, owners := s.owners ++ [⟨.direct file, true⟩] }
      | (_, ring) => .ok { s with ring := ring }
  | .drop i =>
      match s.owners[i]? with
      | some ⟨.fixed fixed, _⟩ =>
          .ok { s with
            ring := fixed.drop s.ring, owners := s.owners.set i ⟨.fixed fixed, false⟩ }
      | some ⟨.direct file, _⟩ => do
          let ring ← OwnedDirect.drop Target.names s.ring (.manual file)
          return { s with ring := ring, owners := s.owners.set i ⟨.direct file, false⟩ }
      | _ => .ok s
  | .submit buffer sources slot waker => do
      let uses := s.usesOf (buffer.toList ++ sources)
      let (key, ring) ← s.ring.submit (uses.map (·.2)) slot waker
      return { s with ring := ring, inFlight := s.inFlight ++ [⟨uses, buffer, key.asU64, false⟩] }
  | .submitDetached sources => do
      let uses := s.usesOf sources
      let ring ← s.ring.submitDetached (uses.map (·.2))
      return { s with ring := ring, inFlight := s.inFlight ++ [⟨uses, none, ignoreKey, true⟩] }
  | .abandon j request cancel =>
      match s.inFlight[j]? with
      | none => .ok s
      | some entry => do
          let (cancel, s) ← s.cancelOp entry.buffer cancel
          let ran ← s.ring.cancel (Key.fromU64 entry.userData) request cancel
          return { s with
            ring := ran.state, inFlight := s.inFlight.set j { entry with abandoned := true } }
  | .completion j result =>
      match s.inFlight[j]? with
      | none => .ok s
      | some entry => do
          let ran ← s.ring.handleCompletion ⟨entry.userData, result⟩
          return { s with
            ring := ran.state,
            inFlight := if result.hasMore then s.inFlight else s.inFlight.eraseIdx j }
  | .others call => do
      let ring ← call.run s.ring
      return { s with ring := ring }

def holds (s : Slots W) (kind : SlotOwner → Bool) (i : Nat) : Bool :=
  (s.owners[i]?).any fun holding => holding.kept && kind holding.owner

def isDirect (s : Slots W) (i : Nat) : Bool := (s.owners[i]?).any (·.owner.isDirect)

/-- The op of a submission in flight has the buffer. -/
def lent (s : Slots W) (i : Nat) : Bool := s.inFlight.any (·.buffer == some i)

/-- A call about the key of an entry in flight is its submission's or the kernel's. -/
def foreign (s : Slots W) : RingCall (List SlotName) W Cancellation → Bool
  | .checkResult _ => true
  | call => s.inFlight.all fun entry =>
      entry.userData == ignoreKey || call.key != some (Key.fromU64 entry.userData)

/-- A buffer is in one place, a source is a copy of a number. -/
def permits (s : Slots W) : SlotMove W → Bool
  | .drop i => (s.holds (·.isFixed) i && !s.lent i) || s.holds (·.isDirect) i
  | .submit buffer sources slot _ =>
      s.ring.completions.slab.admits slot &&
        buffer.all (fun i => s.holds (·.isFixed) i && !s.lent i) && sources.all s.isDirect
  | .submitDetached sources => sources.all s.isDirect
  | .abandon j request _ =>
      (s.inFlight[j]?).any (!·.abandoned) && request.all (·.isEmpty)
  | .completion j _ => j < s.inFlight.length
  | .others call => call.admitted s.ring && call.request.all (·.isEmpty) && s.foreign call
  | _ => true

def machine (W : Type) : Machine (Slots W) (SlotMove W) Panic where
  init s := ∃ options entries, options.fixedBuffers.toNat ≤ maxFixedBuffers ∧
    s = ⟨Ring.build options entries, [], []⟩
  permits s move := s.permits move = true
  exec := exec

/-- No slot that an entry in flight names can be handed out, and whoever has
been handed it is the one the entry was made with. -/
def Exclusive (s : Slots W) : Prop :=
  ∀ entry ∈ s.inFlight, ∀ i name, (i, name) ∈ entry.uses →
    ¬ (s.ring.table name.table).MayHandOut name.slot ∧
    ∀ k holding, s.owners[k]? = some holding → holding.kept = true →
      holding.owner.name = name → k = i

/-- Owners outlive the entries that name their slots, and ops are submitted with
the slots of owners that are still there. -/
def careful (s : Slots W) : SlotMove W → Bool
  | .drop i => s.inFlight.all fun entry => entry.uses.all (·.1 != i)
  | .submit _ sources _ _ => sources.all (s.holds fun _ => true)
  | .submitDetached sources => sources.all (s.holds fun _ => true)
  | .abandon j _ _ => (s.inFlight[j]?).all (·.buffer.isNone)
  | _ => true

def Careful (s : Slots W) (move : SlotMove W) : Prop := s.careful move = true

end Slots

end Inel.Reactor
