import Inel.Base.Pool
import Inel.Reactor.Completion

/-!
# Mailboxes

What a key stands for, apart from where its results are kept: a mailbox that
still collects results, or a cancellation waiting for the last of them. The
completion set keeps these mailboxes in a slab, an inline slot and a pool of
queues; each of its calls changes the mailbox of its own key and no other.
-/

namespace Inel.Reactor

open SlotTable NumberPool

inductive Mailbox (C : Type)
  | live (pending : List RingResult) (more : Bool)
  | cancelled (cancel : C)
deriving DecidableEq, Repr

namespace Mailbox

variable {C : Type}

/-- A mailbox goes away once it is empty and no result can follow. -/
def remaining (pending : List RingResult) (more : Bool) : Option (Mailbox C) :=
  if pending.isEmpty && !more then none else some (.live pending more)

/-- What cancelling leaves of a mailbox. -/
def afterCancel (cancel : C) (more : Bool) : Option (Mailbox C) :=
  if more then some (.cancelled cancel) else none

@[simp] theorem remaining_true (pending : List RingResult) :
    (remaining pending true : Option (Mailbox C)) = some (.live pending true) := by
  simp [remaining]

end Mailbox

namespace ResultQueues

def contents (queues : ResultQueues) (handle : QueueHandle) : List RingResult :=
  (queues.queues[handle.index]?).getD []

theorem contents_withCapacity (capacity : Nat) (handle : QueueHandle) :
    (withCapacity capacity).contents handle = [] := by
  rw [contents, withCapacity, List.getElem?_replicate]
  split <;> rfl

theorem get_of_lt {queues : ResultQueues} {handle : QueueHandle}
    (h : handle.index < queues.queues.length) :
    queues.get handle = .ok (queues.contents handle) := by
  simp [get, contents, h]

theorem contents_set {queues : ResultQueues} {handle : QueueHandle} (queue : List RingResult)
    (h : handle.index < queues.queues.length) (other : QueueHandle) :
    (queues.set handle queue).contents other =
      if other.index = handle.index then queue else queues.contents other := by
  by_cases heq : other.index = handle.index
  · simp [contents, set, heq, h]
  · simp [contents, set, heq, List.getElem?_set_ne (Ne.symm heq)]

@[simp] theorem length_set (queues : ResultQueues) (handle : QueueHandle)
    (queue : List RingResult) : (queues.set handle queue).queues.length = queues.queues.length := by
  simp [set]

@[simp] theorem unused_set (queues : ResultQueues) (handle : QueueHandle)
    (queue : List RingResult) : (queues.set handle queue).unused = queues.unused := rfl

/-- A fresh queue is empty, and so is what lies beyond the pool. -/
theorem contents_handle (queues : ResultQueues) (handle : QueueHandle) :
    queues.handle.2.contents handle = queues.contents handle := by
  unfold ResultQueues.handle
  split
  · rfl
  · rcases Nat.lt_trichotomy handle.index queues.queues.length with hlt | heq | hgt
    · simp [contents, List.getElem?_append_left hlt]
    · simp [contents, heq]
    · have hout : (queues.queues ++ [[]])[handle.index]? = none := by
        rw [List.getElem?_eq_none]; simp; omega
      simp [contents, hout, List.getElem?_eq_none (Nat.le_of_lt hgt)]

theorem pushBack_of_lt {queues : ResultQueues} {handle : QueueHandle} (result : RingResult)
    (h : handle.index < queues.queues.length) :
    queues.pushBack handle result =
      .ok (queues.set handle (queues.contents handle ++ [result])) := by
  simp [pushBack, get_of_lt h, bind, Except.bind, pure, Except.pure]

/-- The pool after a handle came back, its queue cleared. -/
def returned (queues : ResultQueues) (handle : QueueHandle) : ResultQueues :=
  { queues.set handle [] with unused := handle :: queues.unused }

theorem release_of_lt {queues : ResultQueues} {handle : QueueHandle}
    (h : handle.index < queues.queues.length) :
    queues.release handle = .ok (queues.returned handle) := by
  simp [release, get_of_lt h, bind, Except.bind, pure, Except.pure, returned]

theorem contents_returned {queues : ResultQueues} {handle : QueueHandle}
    (h : handle.index < queues.queues.length) (other : QueueHandle) :
    (queues.returned handle).contents other =
      if other.index = handle.index then [] else queues.contents other :=
  contents_set [] h other

end ResultQueues

namespace Completion

variable {W C : Type}

def mailbox (queues : ResultQueues) : Completion W C → Option (Mailbox C)
  | .vacant _ => some (.live [] true)
  | .single result => some (.live [result] false)
  | .multiple _ handle more => some (.live (queues.contents handle) more)
  | .cancelled cancel => some (.cancelled cancel)
  | .finished => none

def waker? : Completion W C → Option W
  | .vacant waker => some waker
  | .multiple waker _ _ => some waker
  | _ => none

def held : Completion W C → Option Nat
  | .multiple _ handle _ => some handle.index
  | _ => none

end Completion

namespace CompletionSet

variable {W C τ : Type}

def mailbox (set : CompletionSet W C) (slot : Nat) : Option (Mailbox C) :=
  (set.slab.get slot).bind (Completion.mailbox set.queues)

def waker (set : CompletionSet W C) (slot : Nat) : Option W :=
  (set.slab.get slot).bind Completion.waker?

def held (set : CompletionSet W C) (slot : Nat) : Option Nat :=
  (set.slab.get slot).bind Completion.held

/-- Every pooled queue is unused and empty or held by exactly one completion. -/
structure Wf (set : CompletionSet W C) : Prop where
  slots_le : set.slab.slots.length ≤ 2 ^ 32
  unfinished : ∀ slot, set.slab.get slot ≠ some .finished
  balanced : Balanced (set.queues.unused.map (·.index)) set.queues.queues.length set.held
  unused_empty : ∀ handle ∈ set.queues.unused, set.queues.contents handle = []
  pending : ∀ slot waker handle, set.slab.get slot = some (.multiple waker handle false) →
    set.queues.contents handle ≠ []

theorem withCapacity_wf (capacity : Nat) : (withCapacity capacity : CompletionSet W C).Wf where
  slots_le := by simp [withCapacity, Slab.empty]
  unfinished := by simp [withCapacity]
  balanced := by
    have hheld : (withCapacity capacity : CompletionSet W C).held = fun _ => none := by
      funext slot
      simp [held, withCapacity]
    rw [hheld]
    exact Balanced.full 4
  unused_empty := fun handle _ => ResultQueues.contents_withCapacity 4 handle
  pending := by simp [withCapacity]

@[simp] theorem mailbox_withCapacity (capacity slot : Nat) :
    (withCapacity capacity : CompletionSet W C).mailbox slot = none := by
  simp [mailbox, withCapacity]

theorem Wf.mailbox_eq_none_iff {set : CompletionSet W C} (h : set.Wf) {slot : Nat} :
    set.mailbox slot = none ↔ set.slab.get slot = none := by
  unfold mailbox
  cases hget : set.slab.get slot with
  | none => simp
  | some completion =>
      cases completion with
      | finished => exact absurd hget (h.unfinished slot)
      | _ => simp [Completion.mailbox]

theorem mailbox_live_cases {set : CompletionSet W C} {slot : Nat} {pending : List RingResult}
    {more : Bool} (h : set.mailbox slot = some (.live pending more)) :
    (∃ waker, set.slab.get slot = some (.vacant waker) ∧ pending = [] ∧ more = true) ∨
      (∃ result, set.slab.get slot = some (.single result) ∧ pending = [result] ∧
        more = false) ∨
      ∃ waker handle, set.slab.get slot = some (.multiple waker handle more) ∧
        pending = set.queues.contents handle := by
  unfold mailbox at h
  cases hget : set.slab.get slot with
  | none => simp [hget] at h
  | some completion =>
      cases completion with
      | vacant waker =>
          simp only [hget, Option.bind_some, Completion.mailbox, Option.some.injEq,
            Mailbox.live.injEq] at h
          exact Or.inl ⟨waker, rfl, h.1.symm, h.2.symm⟩
      | single result =>
          simp only [hget, Option.bind_some, Completion.mailbox, Option.some.injEq,
            Mailbox.live.injEq] at h
          exact Or.inr (Or.inl ⟨result, rfl, h.1.symm, h.2.symm⟩)
      | multiple waker handle more' =>
          simp only [hget, Option.bind_some, Completion.mailbox, Option.some.injEq,
            Mailbox.live.injEq] at h
          exact Or.inr (Or.inr ⟨waker, handle, by rw [h.2], h.1.symm⟩)
      | cancelled cancel => simp [hget, Completion.mailbox] at h
      | finished => simp [hget, Completion.mailbox] at h

theorem get_of_mailbox_cancelled {set : CompletionSet W C} {slot : Nat} {cancel : C}
    (h : set.mailbox slot = some (.cancelled cancel)) :
    set.slab.get slot = some (.cancelled cancel) := by
  unfold mailbox at h
  cases hget : set.slab.get slot with
  | none => simp [hget] at h
  | some completion =>
      cases completion <;> simp [hget, Completion.mailbox] at h
      rw [h]

/-! ## One call, one mailbox -/

/-- `set'` differs from `set` in the mailbox of `slot`, which is now `box`. -/
structure Updates (set set' : CompletionSet W C) (slot : Nat) (box : Option (Mailbox C)) :
    Prop where
  wf : set'.Wf
  length : set'.slab.slots.length = set.slab.slots.length
  here : set'.mailbox slot = box
  waker : ∀ pending, box = some (.live pending true) → set'.waker slot = set.waker slot
  others : ∀ other, other ≠ slot → set'.mailbox other = set.mailbox other
  wakers : ∀ other, other ≠ slot → set'.waker other = set.waker other

/-- What `withCompletion` writes back. -/
def store (set : CompletionSet W C) (slot : Nat) (completion : Completion W C)
    (queues : ResultQueues) : CompletionSet W C :=
  ⟨if completion.isFinished then set.slab.remove slot else set.slab.put slot completion, queues⟩

theorem withCompletion_of_get {set : CompletionSet W C} {key : Key} {old new : Completion W C}
    {queues : ResultQueues} {value : τ} {effects : List (Effect W C)}
    {run : Completion W C → ResultQueues →
      Except Panic (Ran τ (Completion W C × ResultQueues) W C)}
    (hget : set.slab.get key.asUsize = some old)
    (hrun : run old set.queues = .ok ⟨value, (new, queues), effects⟩) :
    set.withCompletion key run =
      .ok ⟨value, set.store key.asUsize new queues, effects⟩ := by
  simp [withCompletion, hget, hrun, bind, Except.bind, pure, Except.pure, store]

theorem withCompletion_of_error {set : CompletionSet W C} {key : Key} {old : Completion W C}
    {panic : Panic}
    {run : Completion W C → ResultQueues →
      Except Panic (Ran τ (Completion W C × ResultQueues) W C)}
    (hget : set.slab.get key.asUsize = some old) (hrun : run old set.queues = .error panic) :
    set.withCompletion key run = .error panic := by
  simp [withCompletion, hget, hrun, bind, Except.bind]

/-- Every call on a vacant key panics. -/
theorem withCompletion_of_vacant {set : CompletionSet W C} {key : Key}
    {run : Completion W C → ResultQueues →
      Except Panic (Ran τ (Completion W C × ResultQueues) W C)}
    (hget : set.slab.get key.asUsize = none) :
    set.withCompletion key run = .error (.expect "unexpected key") := by
  simp [withCompletion, hget]

theorem get_store {set : CompletionSet W C} {slot : Nat} (hslot : slot < set.slab.slots.length)
    (completion : Completion W C) (queues : ResultQueues) (other : Nat) :
    (set.store slot completion queues).slab.get other =
      if other = slot then (if completion.isFinished then none else some completion)
      else set.slab.get other := by
  unfold store
  cases hfin : completion.isFinished
  · simp [Slab.get_put hslot]
  · simp [Slab.get_remove]

theorem held_store {set : CompletionSet W C} {slot : Nat} (hslot : slot < set.slab.slots.length)
    (completion : Completion W C) (queues : ResultQueues) :
    (set.store slot completion queues).held =
      Function.update set.held slot completion.held := by
  funext other
  by_cases heq : other = slot
  · subst heq
    cases completion <;> simp [held, get_store hslot, Completion.isFinished, Completion.held]
  · simp [held, get_store hslot, heq]

theorem mailbox_store_here {set : CompletionSet W C} {slot : Nat}
    (hslot : slot < set.slab.slots.length) (completion : Completion W C) (queues : ResultQueues) :
    (set.store slot completion queues).mailbox slot = completion.mailbox queues := by
  unfold mailbox
  rw [get_store hslot]
  cases completion <;> simp [Completion.isFinished, Completion.mailbox, store]

/-- Another slot's mailbox survives when the queue it holds does. -/
theorem mailbox_store_other {set : CompletionSet W C} {slot other : Nat}
    (hslot : slot < set.slab.slots.length) (completion : Completion W C) (queues : ResultQueues)
    (hne : other ≠ slot)
    (hkeep : ∀ handle : QueueHandle, set.held other = some handle.index →
      queues.contents handle = set.queues.contents handle) :
    (set.store slot completion queues).mailbox other = set.mailbox other := by
  unfold mailbox
  rw [get_store hslot, if_neg hne]
  cases hget : set.slab.get other with
  | none => rfl
  | some stored =>
      cases stored with
      | multiple waker handle more =>
          have hheld : set.held other = some handle.index := by
            simp [held, hget, Completion.held]
          simp [Completion.mailbox, store, hkeep handle hheld]
      | _ => simp [Completion.mailbox]

theorem updates_store {set : CompletionSet W C} {slot : Nat} {old new : Completion W C}
    {queues : ResultQueues} (hwf : set.Wf) (hget : set.slab.get slot = some old)
    (hbalanced : Balanced (queues.unused.map (·.index)) queues.queues.length
      (Function.update set.held slot new.held))
    (hempty : ∀ handle ∈ queues.unused, queues.contents handle = [])
    (hkeep : ∀ (other : Nat) (handle : QueueHandle), other ≠ slot →
      set.held other = some handle.index →
      queues.contents handle = set.queues.contents handle)
    (hpending : ∀ waker handle, new = .multiple waker handle false →
      queues.contents handle ≠ [])
    (hwaker : ∀ pending, new.mailbox queues = some (.live pending true) →
      new.waker? = old.waker?) :
    Updates set (set.store slot new queues) slot (new.mailbox queues) := by
  have hslot : slot < set.slab.slots.length := Slab.lt_length_of_get hget
  have hlength : (set.store slot new queues).slab.slots.length = set.slab.slots.length := by
    unfold store
    split <;> simp
  refine ⟨⟨?_, ?_, ?_, ?_, ?_⟩, hlength, mailbox_store_here hslot new queues, ?_, ?_, ?_⟩
  · rw [hlength]
    exact hwf.slots_le
  · intro other
    rw [get_store hslot]
    split
    · cases new <;> simp [Completion.isFinished]
    · exact hwf.unfinished other
  · rw [held_store hslot]
    exact hbalanced
  · exact hempty
  · intro other waker handle hother
    rw [get_store hslot] at hother
    split at hother
    · refine hpending waker handle ?_
      cases hfin : new.isFinished <;> simp [hfin] at hother
      exact hother
    · next hne =>
        have hheld : set.held other = some handle.index := by
          simp [held, hother, Completion.held]
        change queues.contents handle ≠ []
        rw [hkeep other handle hne hheld]
        exact hwf.pending other waker handle hother
  · intro pending hbox
    have hnew : new.isFinished = false := by
      cases new <;> simp_all [Completion.mailbox, Completion.isFinished]
    simp only [CompletionSet.waker, get_store hslot, hget, ite_true, hnew, Bool.false_eq_true,
      ite_false, Option.bind_some]
    exact hwaker pending hbox
  · exact fun other hne => mailbox_store_other hslot new queues hne (hkeep other · hne)
  · intro other hne
    simp [CompletionSet.waker, get_store hslot, hne]

end CompletionSet

end Inel.Reactor
