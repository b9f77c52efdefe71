import Mathlib.Algebra.Group.Nat.Defs

/-!
# Results and keys

The completion record of the kernel as the ring keeps it, the key a submission
is known by, and what a call can do besides returning: run a callback or panic.
-/

namespace Inel.Reactor

/-- How a call ends when it does not return. -/
inductive Panic
  | expect (message : String)
  | unreachable (message : String)
  | panicked (message : String)
  | index
deriving DecidableEq, Repr

/-- `IORING_CQE_F_BUFFER`: the upper sixteen flag bits name a buffer. -/
def cqeBuffer : UInt32 := 1

/-- `IORING_CQE_F_MORE`: the entry will post further completions. -/
def cqeMore : UInt32 := 2

structure RingResult where
  ret : Int32
  flags : UInt32
deriving DecidableEq, Repr

namespace RingResult

def hasMore (result : RingResult) : Bool := result.flags &&& cqeMore != 0

def bufferId (result : RingResult) : Option UInt16 :=
  if result.flags &&& cqeBuffer != 0 then some (result.flags >>> 16).toUInt16 else none

end RingResult

/-- Identifies an operation submitted to the ring: a slab index kept in 32 bits. -/
structure Key where
  raw : UInt32
deriving DecidableEq, Repr

namespace Key

def fromUsize (value : Nat) : Key := ⟨.ofNat value⟩

def asUsize (key : Key) : Nat := key.raw.toNat

def fromU64 (value : UInt64) : Key := ⟨value.toUInt32⟩

def asU64 (key : Key) : UInt64 := key.raw.toUInt64

@[simp] theorem asUsize_fromUsize (value : Nat) : (fromUsize value).asUsize = value % 2 ^ 32 := by
  simp [fromUsize, asUsize]

theorem asUsize_fromUsize_of_lt {value : Nat} (h : value < 2 ^ 32) :
    (fromUsize value).asUsize = value := by
  rw [asUsize_fromUsize, Nat.mod_eq_of_lt h]

@[simp] theorem fromUsize_asUsize (key : Key) : fromUsize key.asUsize = key := by
  simp [fromUsize, asUsize]

/-- A key survives its trip through the user data of a queue entry. -/
@[simp] theorem fromU64_asU64 (key : Key) : fromU64 key.asU64 = key := by
  simp [fromU64, asU64]

theorem asUsize_inj {k k' : Key} : k.asUsize = k'.asUsize ↔ k = k' := by
  cases k; cases k'
  simp [asUsize, UInt32.toNat_inj]

end Key

/-- A callback run while a completion changes state: a waker woken, a result
handed to a cancellation, a cancellation told to release what it owns. -/
inductive Effect (W C : Type)
  | wake (waker : W)
  | consume (cancel : C) (result : RingResult)
  | dropRaw (cancel : C)
deriving DecidableEq, Repr

/-- The value a call returns, the state it leaves and the callbacks it ran. -/
structure Ran (τ σ W C : Type) where
  value : τ
  state : σ
  effects : List (Effect W C)
deriving DecidableEq, Repr

end Inel.Reactor
