import Inel.Base.Transition
import Inel.Reactor.Ring

/-!
# Ring and kernel

A ring serves its callers between waits. A wait hands the submission queue to the
kernel, which may post completions at any time, and then reads completions until
it leaves. The kernel keeps an entry until its last completion was read; those of
one entry are read in the order posted. What happened to whom is kept beside.
-/

namespace Inel.Reactor

open SlotTable Transitions

abbrev SubmissionId := Nat

/-- What an entry is for: a submission, nobody, or the cancellation of what a
key stood for when the entry was pushed. -/
inductive Request
  | submission (id : SubmissionId)
  | detached
  | asyncCancel (id : SubmissionId) (target : Key)
deriving DecidableEq, Repr

/-- The submission an entry completes. -/
def Request.owner : Request → Option SubmissionId
  | .submission id => some id
  | _ => none

/-- The submission an entry cancels. -/
def Request.cancels : Request → Option SubmissionId
  | .asyncCancel id _ => some id
  | _ => none

/-- An entry the kernel took, with what it posted for it and was not read yet. -/
structure Taken where
  entry : Entry Request
  posted : List RingResult
deriving DecidableEq, Repr

inductive Event
  /-- A completion was read and its result went to `receiver`. -/
  | handled (request : Request) (receiver : Option SubmissionId)
  /-- The kernel took a cancellation whose key stood for `denoted` and matched
  the user data of the entries of `matched`. -/
  | cancelling (id : SubmissionId) (denoted : Option SubmissionId) (matched : List Request)
deriving DecidableEq, Repr

/-- The result went to the submission it is for; the cancellation reached the
submission it was meant for and no other. -/
def Event.Truthful : Event → Prop
  | .handled request receiver => receiver = request.owner
  | .cancelling id denoted matched =>
      denoted = some id ∧ ∀ request ∈ matched, request = .submission id

structure System (W C : Type) where
  ring : Ring Request W C
  /-- Who was given a slot last. -/
  occupant : Nat → SubmissionId
  born : Nat
  /-- The submissions that were cancelled. -/
  withdrawn : List SubmissionId
  taken : List Taken
  waiting : Bool
  events : List Event

inductive Command (W C : Type)
  | submit (slot : Nat) (waker : W)
  | submitDetached
  | cancel (key : Key) (entry : Bool) (cancel : C)
  | checkResult (key : Key)
  | enter
  | post (i : Nat) (result : RingResult)
  | handle (i : Nat)
  | leave
deriving DecidableEq, Repr

namespace System

variable {W C : Type}

/-- The entries pushed whose last completion was not read yet. -/
def owed (s : System W C) : List (Entry Request) := s.ring.queue ++ s.taken.map (·.entry)

/-- The submission a key stands for. -/
def denotes (s : System W C) (key : Key) : Option SubmissionId :=
  (s.ring.completions.slab.get key.asUsize).map fun _ => s.occupant key.asUsize

/-- The kernel takes the queue in order and acts on cancellations as it meets them. -/
def cancelEvents (denotes : Key → Option SubmissionId) :
    List (Entry Request) → List (Entry Request) → List Event
  | _, [] => []
  | earlier, entry :: queue =>
      let rest := cancelEvents denotes (earlier ++ [entry]) queue
      match entry.request with
      | .asyncCancel id target =>
          .cancelling id (denotes target)
            ((earlier.filter (·.userData == target.asU64)).map (·.request)) :: rest
      | _ => rest

/-- Whom the ring passes a completion on to. -/
def receiver (s : System W C) (userData : UInt64) : Option SubmissionId :=
  if userData == ignoreKey then none else s.denotes (Key.fromU64 userData)

def exec (s : System W C) : Command W C → Except Panic (System W C)
  | .submit slot waker => do
      let (_, ring) ← s.ring.submit (.submission s.born) slot waker
      return { s with
        ring := ring, occupant := Function.update s.occupant slot s.born, born := s.born + 1 }
  | .submitDetached => do
      let ring ← s.ring.submitDetached .detached
      return { s with ring := ring }
  | .cancel key entry cancel => do
      let id := s.occupant key.asUsize
      let ran ← s.ring.cancel key (if entry then some (.asyncCancel id key) else none) cancel
      return { s with ring := ran.state, withdrawn := id :: s.withdrawn }
  | .checkResult key => do
      let ran ← s.ring.checkResult key
      return { s with ring := ran.state }
  | .enter =>
      let (flushed, ring) := s.ring.submitAndWait
      .ok { s with
        ring := ring, waiting := true, taken := s.taken ++ flushed.map (⟨·, []⟩),
        events := s.events ++ cancelEvents s.denotes (s.taken.map (·.entry)) flushed }
  | .post i result =>
      match s.taken[i]? with
      | some t => .ok { s with taken := s.taken.set i { t with posted := t.posted ++ [result] } }
      | none => .ok s
  | .handle i =>
      match s.taken[i]? with
      | some ⟨entry, result :: rest⟩ => do
          let ran ← s.ring.handleCompletion ⟨entry.userData, result⟩
          return { s with
            ring := ran.state,
            taken := if result.hasMore then s.taken.set i ⟨entry, rest⟩ else s.taken.eraseIdx i,
            events := s.events ++ [.handled entry.request (s.receiver entry.userData)] }
      | _ => .ok s
  | .leave => .ok { s with waiting := false }

theorem exec_enter (s : System W C) (h : s.ring.idle = false) :
    s.exec .enter = .ok { s with
      ring := { s.ring with queue := [], canceled := 0 }, waiting := true,
      taken := s.taken ++ s.ring.queue.map (⟨·, []⟩),
      events := s.events ++ cancelEvents s.denotes (s.taken.map (·.entry)) s.ring.queue } := by
  simp [exec, Ring.submitAndWait, h]

theorem exec_enter_idle (s : System W C) (h : s.ring.idle = true) :
    s.exec .enter = .ok { s with waiting := true } := by
  simp [exec, Ring.submitAndWait, h, cancelEvents]

/-- The callers act between waits; the kernel posts nothing after an entry's
last completion, and nothing but that for a cancelled one. -/
def permits (s : System W C) : Command W C → Bool
  | .submit slot _ => !s.waiting && s.ring.completions.slab.admits slot
  | .post i result =>
      match s.taken[i]? with
      | some t => t.posted.all (·.hasMore) &&
          (!result.hasMore || !t.entry.request.owner.any (· ∈ s.withdrawn))
      | none => false
  | .handle i => s.waiting && (s.taken[i]?).any (!·.posted.isEmpty)
  | .leave => s.waiting
  | _ => !s.waiting

/-- An insertion finds fewer than `2 ^ 32` completions in the slab. -/
def keysFit (s : System W C) : Command W C → Bool
  | .submit _ _ => s.ring.completions.slab.len < 2 ^ 32
  | _ => true

/-- Fewer than `2 ^ 32` entries are outstanding once another was pushed. -/
def countersFit (s : System W C) : Command W C → Bool
  | .submit _ _ => s.owed.length + 1 < 2 ^ 32
  | .submitDetached => s.owed.length + 1 < 2 ^ 32
  | .cancel _ entry _ => !entry || s.owed.length + 1 < 2 ^ 32
  | _ => true

/-- An ignored entry has one completion. -/
def ignoredOnce (s : System W C) : Command W C → Bool
  | .post i result => !result.hasMore || (s.taken[i]?).any (·.entry.request.owner.isSome)
  | _ => true

/-- A key is not cancelled while it has completions to read that announce more. -/
def readsFirst (s : System W C) : Command W C → Bool
  | .cancel key _ _ => s.taken.all fun t =>
      t.entry.userData != key.asU64 || t.posted.all (!·.hasMore)
  | _ => true

/-- The commands of a run in which everything can be accounted for. -/
structure Orderly (s : System W C) (command : Command W C) : Prop where
  keys : s.keysFit command = true
  counters : s.countersFit command = true
  ignored : s.ignoredOnce command = true
  reads : s.readsFirst command = true

/-- Every entry has one completion. -/
def single (_ : System W C) : Command W C → Bool
  | .post _ result => !result.hasMore
  | _ => true

def machine (W C : Type) : Machine (System W C) (Command W C) Panic where
  init s := ∃ options entries occupant,
    s = ⟨Ring.build options entries, occupant, 0, [], [], false, []⟩
  permits s command := s.permits command = true
  exec := exec

end System

end Inel.Reactor
