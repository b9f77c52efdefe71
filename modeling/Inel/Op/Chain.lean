import Inel.Base.Links
import Inel.Op.Basic
import Inel.Reactor.Ring

/-!
# Chained ops

An op may ask for its entry to be linked to the entry pushed next, whoever
pushes that one. The kernel then runs the two in order and cancels the second if
the first fails.
-/

namespace Inel.Reactor

open LinkedBatch

/-- A request and `IO_LINK`. -/
structure Sqe where
  request : Opcode
  link : Bool
deriving DecidableEq, Repr

namespace Sqe

def single (request : Opcode) : Sqe := ⟨request, false⟩

def chain (sqe : Sqe) : Sqe := { sqe with link := true }

end Sqe

/-- Wraps an op, whose entry is linked to the next one submitted. -/
structure Chain (O : Type) where
  inner : O
deriving DecidableEq, Repr

def Chain.op {O Out C : Type} (op : Op O Sqe Out C) : Op (Chain O) Sqe Out C where
  entry := fun chain =>
    let (sqe, inner) := op.entry chain.inner
    (sqe.chain, ⟨inner⟩)
  result := fun chain => op.result chain.inner
  cancel := fun chain => op.cancel chain.inner
  entryCancel := op.entryCancel

/-- An op whose entry carries no flags of its own. -/
def Op.plain {O Out C : Type} (op : Op O Opcode Out C) : Op O Sqe Out C where
  entry := fun o =>
    let (request, o) := op.entry o
    (.single request, o)
  result := op.result
  cancel := op.cancel
  entryCancel := fun key => (op.entryCancel key).map .single

/-- `std::net::Shutdown`. -/
inductive How
  | read
  | write
  | both
deriving DecidableEq, Repr

structure Shutdown where
  src : Target
  raw : Int32
deriving DecidableEq, Repr

namespace Shutdown

def how : How → Int32
  | .read => 0
  | .write => 1
  | .both => 2

def entry (source : Target) (how : How) : Sqe := .single (.shutdown source (Shutdown.how how))

def new (source : Target) (how : How) : Shutdown := ⟨source, Shutdown.how how⟩

def op : Op Shutdown Opcode (Except OsError Unit) Cancellation where
  entry := fun shutdown => (.shutdown shutdown.src shutdown.raw, shutdown)
  result := fun _ res => expectZero res
  cancel := fun _ => .empty
  entryCancel := fun _ => none

end Shutdown

def Close.entry (source : Target) : Sqe := .single (.close source)

def Entry.linked (entry : Entry Sqe) : Bool := entry.request.link

namespace Ring

variable {W C : Type}

/-- The entry pushed next belongs to a chain that was cut. `ok` tells how the
kernel's execution of each entry of the batch ends. -/
def cut (ring : Ring Sqe W C) (ok : Nat → Bool) : Bool :=
  cutAfter Entry.linked ok 0 false ring.queue

def executed (ring : Ring Sqe W C) (ok : Nat → Bool) : List Sqe :=
  (LinkedBatch.executed Entry.linked ok 0 false ring.queue).map (·.request)

/-- The queue has room for this many entries more. -/
def room (ring : Ring Sqe W C) (n : Nat) : Bool := ring.queue.length + n ≤ ring.entries

variable {ring ring' : Ring Sqe W C} {sqe : Sqe} {ok : Nat → Bool}

theorem submitDetached_iff : ring.submitDetached sqe = .ok ring' ↔
    ring.room 1 = true ∧ ring' = { ring with
      queue := ring.queue ++ [⟨sqe, ignoreKey⟩], detached := ring.detached + 1 } := by
  unfold submitDetached push room
  by_cases hroom : ring.queue.length < ring.entries
  · rw [if_pos hroom, decide_eq_true_eq]
    constructor
    · intro h
      exact ⟨hroom, (Except.ok.inj h).symm⟩
    · intro h
      rw [h.2]
      rfl
  · rw [if_neg hroom, decide_eq_true_eq]
    constructor
    · intro h
      simp [bind, Except.bind] at h
    · intro h
      exact absurd h.1 hroom

theorem executed_push (userData : UInt64) (h : ring'.queue = ring.queue ++ [⟨sqe, userData⟩]) :
    ring'.executed ok = ring.executed ok ++ if ring.cut ok then [] else [sqe] := by
  unfold executed cut
  rw [h, executed_append, List.map_append, executed_cons]
  cases cutAfter Entry.linked ok 0 false ring.queue with
  | true => rfl
  | false => rfl

theorem cut_push (userData : UInt64) (h : ring'.queue = ring.queue ++ [⟨sqe, userData⟩]) :
    ring'.cut ok = (sqe.link && (ring.cut ok || !ok ring.queue.length)) := by
  unfold cut
  rw [h, cutAfter_append, cutAfter_cons, Nat.zero_add]
  rfl

end Ring

end Inel.Reactor
