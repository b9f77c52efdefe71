import Inel.Base.Census
import Inel.Reactor.Course

/-!
# The wakers of the completion set

A waker comes into the completion set with a submission and goes with it. No call
puts one in the place of another, so what the set keeps of wakers changes in one
slot, where one comes or goes.
-/

namespace Inel.Reactor

open SlotTable Transitions

variable {E W C τ : Type}

namespace Completion

variable {completion : Completion W C} {queues : ResultQueues}

/-- A completion keeps its waker through a call, or loses it. -/
def KeepsWaker (completion : Completion W C)
    (ran : Except Panic (Ran τ (Completion W C × ResultQueues) W C)) : Prop :=
  ∀ done, ran = .ok done →
    done.state.1.waker? = completion.waker? ∨ done.state.1.waker? = none

theorem tryCancel_keeps (cancel : C) :
    completion.KeepsWaker (completion.tryCancel queues cancel) := by
  intro done hdone
  right
  cases completion with
  | vacant waker => rw [← Except.ok.inj hdone]; rfl
  | single result => rw [← Except.ok.inj hdone]; rfl
  | multiple waker handle more =>
      obtain ⟨results, -, hrest⟩ := bind_eq_ok hdone
      obtain ⟨queues', -, hret⟩ := bind_eq_ok hrest
      split at hret
      · rw [← Except.ok.inj hret]; rfl
      · rw [← Except.ok.inj hret]; rfl
  | cancelled other => simp [tryCancel] at hdone
  | finished => simp [tryCancel] at hdone

theorem tryNotify_keeps (result : RingResult) :
    completion.KeepsWaker (completion.tryNotify queues result) := by
  intro done hdone
  cases completion with
  | vacant waker =>
      simp only [tryNotify] at hdone
      split at hdone
      · left
        obtain ⟨queues', -, hret⟩ := bind_eq_ok hdone
        rw [← Except.ok.inj hret]; rfl
      · right
        rw [← Except.ok.inj hdone]; rfl
  | single other => simp [tryNotify] at hdone
  | multiple waker handle more =>
      left
      obtain ⟨queues', -, hret⟩ := bind_eq_ok hdone
      rw [← Except.ok.inj hret]; rfl
  | cancelled cancel =>
      right
      rw [← Except.ok.inj hdone]; rfl
  | finished => simp [tryNotify] at hdone

theorem takeResult_keeps : completion.KeepsWaker (completion.takeResult queues) := by
  intro done hdone
  cases completion with
  | single result =>
      right
      rw [← Except.ok.inj hdone]; rfl
  | multiple waker handle more =>
      obtain ⟨queue, -, hrest⟩ := bind_eq_ok hdone
      obtain ⟨rest, -, hend⟩ := bind_eq_ok hrest
      split at hend
      · right
        obtain ⟨queues', -, hret⟩ := bind_eq_ok hend
        rw [← Except.ok.inj hret]; rfl
      · left
        rw [← Except.ok.inj hend]
  | _ =>
      left
      rw [← Except.ok.inj hdone]

end Completion

namespace CompletionSet

variable {set set' : CompletionSet W C} {key : Key}

def wakers (set : CompletionSet W C) : List W := Census.census set.waker set.slab.slots.length

theorem lt_of_waker {slot : Nat} {waker : W} (h : set.waker slot = some waker) :
    slot < set.slab.slots.length := by
  unfold CompletionSet.waker at h
  cases hget : set.slab.get slot with
  | none => simp [hget] at h
  | some completion => exact Slab.lt_length_of_get hget

theorem waker_of_le {slot : Nat} (h : set.slab.slots.length ≤ slot) : set.waker slot = none := by
  cases hwaker : set.waker slot with
  | none => rfl
  | some waker => exact absurd (lt_of_waker hwaker) (Nat.not_lt.mpr h)

theorem mem_wakers {waker : W} : waker ∈ set.wakers ↔ ∃ slot, set.waker slot = some waker := by
  rw [wakers, Census.mem_census]
  constructor
  · rintro ⟨slot, -, hslot⟩
    exact ⟨slot, hslot⟩
  · rintro ⟨slot, hslot⟩
    exact ⟨slot, lt_of_waker hslot, hslot⟩

/-- A live mailbox that expects more has a waker. -/
theorem waker_of_expecting {slot : Nat} {pending : List RingResult}
    (h : set.mailbox slot = some (.live pending true)) : ∃ waker, set.waker slot = some waker := by
  rcases mailbox_live_cases h with ⟨waker, hget, -⟩ | ⟨_, _, _, hmore⟩ | ⟨waker, handle, hget, -⟩
  · exact ⟨waker, by simp [CompletionSet.waker, hget, Completion.waker?]⟩
  · simp at hmore
  · exact ⟨waker, by simp [CompletionSet.waker, hget, Completion.waker?]⟩

theorem live_of_waker {slot : Nat} {waker : W} (h : set.waker slot = some waker) :
    ∃ pending more, set.mailbox slot = some (.live pending more) := by
  unfold CompletionSet.waker at h
  cases hget : set.slab.get slot with
  | none => simp [hget] at h
  | some completion =>
      cases completion with
      | vacant other => exact ⟨[], true, by simp [mailbox, hget, Completion.mailbox]⟩
      | multiple other handle more =>
          exact ⟨_, more, by simp [mailbox, hget, Completion.mailbox]; rfl⟩
      | _ => simp [hget, Completion.waker?] at h

theorem withCompletion_waker {run : Completion W C → ResultQueues →
    Except Panic (Ran τ (Completion W C × ResultQueues) W C)} {ran : Ran τ (CompletionSet W C) W C}
    (hrun : ∀ completion : Completion W C, completion.KeepsWaker (run completion set.queues))
    (h : set.withCompletion key run = .ok ran) :
    ran.state.waker key.asUsize = set.waker key.asUsize ∨
      ran.state.waker key.asUsize = none := by
  unfold withCompletion at h
  split at h
  · simp at h
  · next completion hget =>
      obtain ⟨done, hdone, hret⟩ := bind_eq_ok h
      have hlt := Slab.lt_length_of_get hget
      have hkept := hrun completion done hdone
      rw [← Except.ok.inj hret]
      simp only [CompletionSet.waker, hget, Option.bind_some]
      split
      · right
        simp [Slab.get_remove]
      · simpa [Slab.get_put hlt] using hkept

/-- A call on one slot, which may lose its waker. -/
structure Touches (set set' : CompletionSet W C) (slot : Nat) (box : Option (Mailbox C)) : Prop
    extends Updates set set' slot box where
  kept : set'.waker slot = set.waker slot ∨ set'.waker slot = none

theorem Touches.census {slot : Nat} {box : Option (Mailbox C)} (h : set.Touches set' slot box) :
    ((set'.waker slot).toList ++ set.wakers).Perm ((set.waker slot).toList ++ set'.wakers) := by
  rcases Nat.lt_or_ge slot set.slab.slots.length with hlt | hge
  · exact Census.census_update (Nat.le_of_eq h.length.symm) (h.length ▸ hlt)
      (fun _ => waker_of_le) h.wakers
  · have hnone := waker_of_le hge
    have hnone' := waker_of_le (h.length ▸ hge)
    have hsame : set'.waker = set.waker := by
      funext other
      by_cases heq : other = slot
      · rw [heq, hnone, hnone']
      · exact h.wakers other heq
    rw [hnone, hnone']
    unfold CompletionSet.wakers
    rw [hsame, h.length]

end CompletionSet

namespace Ring

open CompletionSet (wakers)

variable {ring ring' : Ring E W C} {key : Key}

theorem checkResult_touches {pending : List RingResult} {more : Bool}
    (hwf : ring.completions.Wf)
    (hbox : ring.completions.mailbox key.asUsize = some (.live pending more))
    {ran : Ran (Option RingResult) (Ring E W C) W C} (hok : ring.checkResult key = .ok ran) :
    ran.value = pending.head? ∧ ring.completions.Touches ran.state.completions key.asUsize
      (Mailbox.remaining pending.tail more) := by
  obtain ⟨hvalue, hupd⟩ := checkResult_spec hwf hbox hok
  obtain ⟨completions, hresult, hstate⟩ := checkResult_eq_ok hok
  refine ⟨hvalue, hupd, ?_⟩
  rw [hstate]
  refine CompletionSet.withCompletion_waker ?_ hresult
  exact fun _ => Completion.takeResult_keeps

theorem cancel_touches {pending : List RingResult} {more : Bool} (hwf : ring.completions.Wf)
    (hbox : ring.completions.mailbox key.asUsize = some (.live pending more)) {request : Option E}
    {cancellation : C} {ran : Ran Unit (Ring E W C) W C}
    (hok : ring.cancel key request cancellation = .ok ran) :
    ring.completions.Touches ran.state.completions key.asUsize
      (Mailbox.afterCancel cancellation more) := by
  obtain ⟨-, hupd⟩ := cancel_spec hwf hbox hok
  obtain ⟨accepted, completions, hcancel, hstate⟩ := cancel_eq_ok hok
  refine ⟨hupd, ?_⟩
  rw [hstate, cancelled_completions]
  refine CompletionSet.withCompletion_waker ?_ hcancel
  exact fun _ => Completion.tryCancel_keeps _

/-- What a submission does to the completion set. -/
structure Inserts (set set' : CompletionSet W C) (slot : Nat) (waker : W) : Prop where
  wf : set'.Wf
  vacant : set.mailbox slot = none
  asleep : set.waker slot = none
  here : set'.mailbox slot = some (.live [] true)
  awake : set'.waker slot = some waker
  others : ∀ other, other ≠ slot → set'.mailbox other = set.mailbox other
  wakers : ∀ other, other ≠ slot → set'.waker other = set.waker other
  census : (waker :: set.wakers).Perm set'.wakers

theorem submit_inserts {request : E} {slot : Nat} {waker : W} (hwf : ring.completions.Wf)
    (hadmits : ring.completions.slab.admits slot = true)
    (hlen : ring.completions.slab.len < 2 ^ 32)
    (hok : ring.submit request slot waker = .ok (key, ring')) :
    key.asUsize = slot ∧ Inserts ring.completions ring'.completions slot waker := by
  obtain ⟨rfl, rfl⟩ := submit_eq_ok hok
  have hslot : slot < 2 ^ 32 := Slab.lt_of_admits hadmits hwf.slots_le hlen
  obtain ⟨hkey, hwf', hbox, hwaker, hothers⟩ :=
    CompletionSet.insert_spec hwf hadmits hslot waker
  have hvacant := Slab.get_of_admits hadmits
  have hasleep : ring.completions.waker slot = none := by
    simp [CompletionSet.waker, hvacant]
  have hlength : (ring.completions.insert slot waker).2.slab.slots.length =
      max ring.completions.slab.slots.length (slot + 1) := Slab.length_insert hadmits _
  refine ⟨hkey, hwf', hwf.mailbox_eq_none_iff.mpr hvacant, hasleep, hbox, hwaker,
    fun other hne => (hothers other hne).1, fun other hne => (hothers other hne).2, ?_⟩
  have hcensus : (((ring.completions.insert slot waker).2.waker slot).toList ++
      ring.completions.wakers).Perm ((ring.completions.waker slot).toList ++
        (ring.completions.insert slot waker).2.wakers) :=
    Census.census_update (by omega) (by omega) (fun _ => CompletionSet.waker_of_le)
      (fun other hne => (hothers other hne).2)
  rw [hwaker, hasleep] at hcensus
  exact hcensus

end Ring

end Inel.Reactor
