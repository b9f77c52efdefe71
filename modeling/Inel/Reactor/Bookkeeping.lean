import Inel.Reactor.Outstanding

/-!
# The books of the ring

The counters of the ring against the entries that are outstanding, the
cancellations still in the submission queue against the mailboxes they are for,
and the invariant of ring and kernel that is made of these.
-/

namespace Inel.Reactor

open SlotTable

variable {W C : Type}

/-! ## The counters -/

/-- `active` counts the submissions and `detached` the ignored entries. -/
structure Tally (active detached : UInt32) (owed : List (Entry Request)) : Prop where
  room : owed.length < 2 ^ 32
  active : active.toNat = (owners owed).length
  detached : detached.toNat = owed.countP (·.request.owner.isNone)

theorem UInt32.toNat_add_one {a : UInt32} (h : a.toNat + 1 < 2 ^ 32) :
    (a + 1).toNat = a.toNat + 1 := by
  rw [UInt32.toNat_add, show (1 : UInt32).toNat = 1 from rfl, Nat.mod_eq_of_lt h]

theorem UInt32.toNat_sub_one {a : UInt32} (h : 0 < a.toNat) : (a - 1).toNat = a.toNat - 1 := by
  rw [UInt32.toNat_sub_of_le]
  · rfl
  · exact UInt32.le_iff_toNat_le.mpr h

namespace Tally

variable {active detached : UInt32} {owed owed' : List (Entry Request)} {entry : Entry Request}

theorem perm (h : Tally active detached owed) (hperm : owed.Perm owed') :
    Tally active detached owed' := by
  refine ⟨by rw [← hperm.length_eq]; exact h.room, ?_, ?_⟩
  · rw [h.active, owners, owners, (hperm.filterMap _).length_eq]
  · rw [h.detached, hperm.countP_eq]

theorem pushSubmission (h : Tally active detached owed) (entry : Entry Request)
    (hroom : owed.length + 1 < 2 ^ 32) (howner : entry.request.owner.isSome) :
    Tally (active + 1) detached (entry :: owed) := by
  have hsplit := length_owners_add owed
  obtain ⟨id, hid⟩ := Option.isSome_iff_exists.mp howner
  refine ⟨by simpa using hroom, ?_, ?_⟩
  · rw [UInt32.toNat_add_one (by rw [h.active]; omega), h.active]
    simp [owners, hid]
  · simp [h.detached, hid]

theorem pushIgnored (h : Tally active detached owed) (hroom : owed.length + 1 < 2 ^ 32)
    (howner : entry.request.owner = none) : Tally active (detached + 1) (entry :: owed) := by
  have hsplit := length_owners_add owed
  refine ⟨by simpa using hroom, ?_, ?_⟩
  · rw [h.active, owners_cons_none howner]
  · rw [UInt32.toNat_add_one (by rw [h.detached]; omega), h.detached]
    simp [howner]

theorem active_pos (h : Tally active detached (entry :: owed))
    (howner : entry.request.owner.isSome) : 0 < active.toNat := by
  obtain ⟨id, hid⟩ := Option.isSome_iff_exists.mp howner
  rw [h.active, owners_cons_some hid]
  exact Nat.succ_pos _

theorem detached_pos (h : Tally active detached (entry :: owed))
    (howner : entry.request.owner = none) : 0 < detached.toNat := by
  rw [h.detached]
  simp [howner]

theorem finishSubmission (h : Tally active detached (entry :: owed))
    (howner : entry.request.owner.isSome) : Tally (active - 1) detached owed := by
  obtain ⟨id, hid⟩ := Option.isSome_iff_exists.mp howner
  have hroom := h.room
  have hactive := h.active
  have hdetached := h.detached
  simp only [List.length_cons] at hroom
  rw [owners_cons_some hid, List.length_cons] at hactive
  refine ⟨by omega, ?_, by simpa [hid] using hdetached⟩
  rw [UInt32.toNat_sub_one (h.active_pos howner), hactive, Nat.add_sub_cancel]

theorem finishIgnored (h : Tally active detached (entry :: owed))
    (howner : entry.request.owner = none) : Tally active (detached - 1) owed := by
  have hroom := h.room
  have hactive := h.active
  have hdetached := h.detached
  simp only [List.length_cons] at hroom
  rw [owners_cons_none howner] at hactive
  simp only [List.countP_cons, howner, Option.isNone_none, if_true] at hdetached
  refine ⟨by omega, hactive, ?_⟩
  rw [UInt32.toNat_sub_one (h.detached_pos howner), hdetached]
  omega

/-- By the counters nothing is outstanding only when nothing is. -/
theorem idle_iff (h : Tally active detached owed) : active + detached = 0 ↔ owed = [] := by
  have hsplit := length_owners_add owed
  have hroom := h.room
  have hactive := h.active
  have hdetached := h.detached
  rw [← UInt32.toNat_inj, UInt32.toNat_add, Nat.mod_eq_of_lt (by omega), hactive, hdetached,
    hsplit, ← List.length_eq_zero_iff]
  rfl

end Tally

/-! ## Cancellations in the queue -/

/-- The submissions that the queue holds a cancellation for. -/
def cancelOwners (queue : List (Entry Request)) : List SubmissionId :=
  queue.filterMap (·.request.cancels)

/-- `canceled` counts the cancellations in the queue; each stands alone for a
submission whose mailbox is cancelled. -/
structure Cancelling (box : Nat → Option (Mailbox C)) (occupant : Nat → SubmissionId)
    (queue : List (Entry Request)) (canceled : UInt32) : Prop where
  target : ∀ entry ∈ queue, ∀ id target, entry.request = .asyncCancel id target →
    occupant target.asUsize = id ∧ ∃ cancel, box target.asUsize = some (.cancelled cancel)
  once : (cancelOwners queue).Nodup
  count : canceled.toNat = (cancelOwners queue).length

namespace Cancelling

variable {box box' : Nat → Option (Mailbox C)} {occupant occupant' : Nat → SubmissionId}
  {queue : List (Entry Request)} {canceled : UInt32} {entry : Entry Request}

theorem empty : Cancelling box occupant [] 0 :=
  ⟨by simp, by simp [cancelOwners], by simp [cancelOwners]⟩

/-- Cancelled mailboxes stay as they are. -/
theorem update (h : Cancelling box occupant queue canceled)
    (hkeep : ∀ slot cancel, box slot = some (.cancelled cancel) →
      box' slot = some (.cancelled cancel) ∧ occupant' slot = occupant slot) :
    Cancelling box' occupant' queue canceled := by
  refine ⟨?_, h.once, h.count⟩
  intro entry hmem id target hrequest
  obtain ⟨hid, cancel, hbox⟩ := h.target entry hmem id target hrequest
  obtain ⟨hbox', hocc⟩ := hkeep _ cancel hbox
  exact ⟨by rw [hocc, hid], cancel, hbox'⟩

theorem push (h : Cancelling box occupant queue canceled)
    (hrequest : entry.request.cancels = none) :
    Cancelling box occupant (queue ++ [entry]) canceled := by
  have hsame : cancelOwners (queue ++ [entry]) = cancelOwners queue := by
    simp [cancelOwners, hrequest]
  refine ⟨?_, by rw [hsame]; exact h.once, by rw [hsame]; exact h.count⟩
  intro other hmem id target hother
  rcases List.mem_append.mp hmem with hmem | hmem
  · exact h.target other hmem id target hother
  · obtain rfl := List.mem_singleton.mp hmem
    simp [hother, Request.cancels] at hrequest

theorem mem_cancelOwners {id : SubmissionId} (hmem : id ∈ cancelOwners queue) :
    ∃ entry ∈ queue, ∃ target, entry.request = .asyncCancel id target := by
  obtain ⟨entry, hentry, hid⟩ := List.mem_filterMap.mp hmem
  refine ⟨entry, hentry, ?_⟩
  cases hrequest : entry.request with
  | submission other => simp [hrequest, Request.cancels] at hid
  | detached => simp [hrequest, Request.cancels] at hid
  | asyncCancel other target =>
      simp only [hrequest, Request.cancels, Option.some.injEq] at hid
      exact ⟨target, by rw [hid]⟩

/-- Cancellations in the queue are for submissions that are still outstanding. -/
theorem subset_owners {born : Nat} {owed : List (Entry Request)}
    (h : Cancelling box occupant queue canceled) (hkeyed : Keyed box occupant born owed) :
    cancelOwners queue ⊆ owners owed := by
  intro id hmem
  obtain ⟨entry, hentry, target, hrequest⟩ := mem_cancelOwners hmem
  obtain ⟨rfl, cancel, hbox⟩ := h.target entry hentry id target hrequest
  exact hkeyed.cover _ (by simp [hbox, Mailbox.expects])

theorem length_le_owners {born : Nat} {owed : List (Entry Request)}
    (h : Cancelling box occupant queue canceled) (hkeyed : Keyed box occupant born owed) :
    (cancelOwners queue).length ≤ (owners owed).length :=
  (h.once.subperm (h.subset_owners hkeyed)).length_le

theorem pushCancel {key : Key} {cancel : C} {born : Nat} {owed : List (Entry Request)}
    (h : Cancelling box occupant queue canceled) (hkeyed : Keyed box occupant born owed)
    (hlive : ∀ c, box key.asUsize ≠ some (.cancelled c)) (hocc : box key.asUsize ≠ none)
    (hroom : (cancelOwners queue).length + 1 < 2 ^ 32)
    (hothers : ∀ other, other ≠ key.asUsize → box' other = box other)
    (hhere : box' key.asUsize = some (.cancelled cancel)) :
    Cancelling box' occupant
      (queue ++ [⟨.asyncCancel (occupant key.asUsize) key, ignoreKey⟩]) (canceled + 1) := by
  have hsplit : cancelOwners (queue ++ [⟨.asyncCancel (occupant key.asUsize) key, ignoreKey⟩]) =
      cancelOwners queue ++ [occupant key.asUsize] := by
    simp [cancelOwners, Request.cancels]
  have hne : ∀ slot c, box slot = some (.cancelled c) → slot ≠ key.asUsize := by
    intro slot c hbox heq
    subst heq
    exact hlive c hbox
  have hfresh : occupant key.asUsize ∉ cancelOwners queue := by
    intro hmem
    obtain ⟨entry, hentry, target, hrequest⟩ := mem_cancelOwners hmem
    obtain ⟨hid, c, hbox⟩ := h.target entry hentry _ target hrequest
    exact hne _ c hbox (hkeyed.inj _ _ (by simp [hbox]) hocc hid)
  refine ⟨?_, ?_, ?_⟩
  · intro entry hmem id target hrequest
    rcases List.mem_append.mp hmem with hmem | hmem
    · obtain ⟨hid, c, hbox⟩ := h.target entry hmem id target hrequest
      exact ⟨hid, c, by rw [hothers _ (hne _ c hbox), hbox]⟩
    · obtain rfl := List.mem_singleton.mp hmem
      obtain ⟨rfl, rfl⟩ := Request.asyncCancel.inj hrequest
      exact ⟨rfl, cancel, hhere⟩
  · rw [hsplit]
    exact List.nodup_append.mpr ⟨h.once, List.nodup_singleton _, by
      intro one hone two htwo heq
      subst heq
      rw [List.mem_singleton.mp htwo] at hone
      exact hfresh hone⟩
  · rw [hsplit, UInt32.toNat_add_one (by rw [h.count]; exact hroom), h.count]
    simp

end Cancelling

end Inel.Reactor
