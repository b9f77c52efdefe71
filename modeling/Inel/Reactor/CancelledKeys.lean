import Inel.Reactor.Delivery

/-!
# Cancelled keys

A cancellation that was accepted keeps the slot of its key until the last result
of the key arrived, provided that this is the only result to arrive. A result
that announces more frees the slot at once.
-/

namespace Inel.Reactor.Clients

open SlotTable Transitions

variable {W : Type} {s s' : Clients W} {id : OwnerId}

/-- Until its last result the key of `id` stays with the cancellation, which is
handed every result and released at the last. -/
structure CancelKept (s : Clients W) (id : OwnerId) : Prop where
  kept : (s.owner id).finalNotified = false →
    s.set.slab.get (s.owner id).key.asUsize = some (.cancelled id)
  reserved : (s.owner id).finalNotified = false → ∀ slot waker, s.set.slab.admits slot = true →
    s.set.slab.len < 2 ^ 32 → (s.set.insert slot waker).1 ≠ (s.owner id).key
  accepted : (s.owner id).finalNotified = false → ∀ result, ∃ s',
    s.exec (.notify id result) = .ok s' ∧
      (s'.owner id).consumed = (s.owner id).consumed ++ [result]
  released : (s.owner id).drops =
    if (s.owner id).finalNotified then [(s.owner id).consumed] else []

/-- Every accepted cancellation is kept. -/
def KeepsCancelled (s : Clients W) : Prop :=
  ∀ id < s.born, ∀ before, (s.owner id).cancel = some (true, before) → s.CancelKept id

theorem Inv.cancelKept (h : s.Inv) (hid : id < s.born) (hcancel : (s.owner id).cancel.isSome) :
    s.CancelKept id := by
  have hget : (s.owner id).finalNotified = false →
      s.set.mailbox (s.owner id).key.asUsize = some (.cancelled id) := fun hfinal =>
    h.here id hid _ (mailbox_of_cancelled id hcancel hfinal)
  refine ⟨fun hfinal => CompletionSet.get_of_mailbox_cancelled (hget hfinal), ?_, ?_, ?_⟩
  · intro hfinal slot waker hadmits hlen heq
    have hslot : slot < 2 ^ 32 := Slab.lt_of_admits hadmits h.wf.slots_le hlen
    have hkey : (s.owner id).key.asUsize = slot := by
      rw [← heq]
      exact Key.asUsize_fromUsize_of_lt hslot
    have hvacant := h.wf.mailbox_eq_none_iff.mpr (Slab.get_of_admits hadmits)
    rw [← hkey, hget hfinal] at hvacant
    simp at hvacant
  · intro hfinal result
    obtain ⟨set, hok, -⟩ := CompletionSet.notify_cancelled h.wf (hget hfinal) result
    refine ⟨_, by simp only [exec, hok, bind, Except.bind, pure, Except.pure]; rfl, ?_⟩
    simp
  · obtain ⟨⟨accepted, before⟩, hsome⟩ := Option.isSome_iff_exists.mp hcancel
    exact ((h.books id hid).closed accepted before hsome).2.2.2

theorem Inv.keepsCancelled (h : s.Inv) : s.KeepsCancelled := by
  intro id hid before hcancel
  exact h.cancelKept hid (by simp [hcancel])

/-- A result that announces more takes the key from the cancellation. -/
theorem Inv.not_kept {result : RingResult} (h : s.Inv) (hid : id < s.born)
    (hcancel : (s.owner id).cancel.isSome) (hfinal : (s.owner id).finalNotified = false)
    (hmore : result.hasMore = true) (hok : s.exec (.notify id result) = .ok s') :
    ¬ s'.KeepsCancelled := by
  intro hkept
  have hbox := h.here id hid _ (mailbox_of_cancelled id hcancel hfinal)
  obtain ⟨set, hnotify, hupd⟩ := CompletionSet.notify_cancelled h.wf hbox result
  simp only [exec, hnotify, bind, Except.bind, pure, Except.pure, Except.ok.injEq] at hok
  subst hok
  obtain ⟨⟨accepted, before⟩, hsome⟩ := Option.isSome_iff_exists.mp hcancel
  obtain ⟨-, ⟨rest, hrest⟩, haccepted, -⟩ := (h.books id hid).closed accepted before hsome
  have hall := Owner.finalNotified_eq_false_iff.mp hfinal
  -- no last result yet, so none when the key was cancelled
  obtain rfl : accepted = true := by
    rw [haccepted, List.all_eq_true]
    exact fun earlier hmem => hall earlier (hrest ▸ List.mem_append_left _ hmem)
  have hstill := (hkept id hid before (by simp [hsome])).kept (by
    have hnone : (s.owner id).notified.any (!·.hasMore) = false := hfinal
    simp [Owner.finalNotified, List.any_append, hnone, hmore])
  have hvacant := hupd.wf.mailbox_eq_none_iff.mp hupd.here
  simp [hvacant] at hstill

/-- Cancelled keys are kept in every run that sends them their last result only,
and no longer once a run does otherwise. -/
theorem cancelled_kept_iff
    (h : Reach (machine W) (fun s call => s.fits call = true ∧ s.finalAfterCancel call = true) s) :
    s.KeepsCancelled ∧ ∀ call s', s.permits call = true → s.fits call = true →
      s.exec call = .ok s' → (s'.KeepsCancelled ↔ s.finalAfterCancel call = true) := by
  have hinv : s.Inv := by
    refine h.invariant ?_ ?_
    · rintro _ ⟨capacity, owner, rfl⟩
      exact start_inv capacity owner
    · rintro s call s' hinv hpermits ⟨hfits, hcalm⟩ hok
      obtain ⟨_, hok', hinv'⟩ := hinv.step hpermits hcalm hfits
      obtain rfl := Except.ok.inj (hok.symm.trans hok')
      exact hinv'
  refine ⟨hinv.keepsCancelled, fun call s' hpermits hfits hok => ⟨fun hkept => ?_, fun hcalm => ?_⟩⟩
  · cases call with
    | notify id result =>
        simp only [permits, Bool.and_eq_true, decide_eq_true_eq, Bool.not_eq_true'] at hpermits
        by_contra hcalm
        simp only [finalAfterCancel, Bool.or_eq_true, Option.isNone_iff_eq_none,
          Bool.not_eq_true', not_or, Bool.not_eq_false] at hcalm
        exact hinv.not_kept hpermits.1 (Option.isSome_iff_ne_none.mpr hcalm.1) hpermits.2
          hcalm.2 hok hkept
    | insert slot waker => rfl
    | result id => rfl
    | cancel id => rfl
  · obtain ⟨_, hok', hinv'⟩ := hinv.step hpermits hcalm hfits
    obtain rfl := Except.ok.inj (hok.symm.trans hok')
    exact hinv'.keepsCancelled

/-- A key cancelled between two results, the second of which is its last. -/
theorem cancelled_kept_once :
    ∃ s : Clients Unit, s.KeepsCancelled ∧ (s.owner 0).cancel = some (true, [⟨7, cqeMore⟩]) ∧
      (s.owner 0).drops = [] := by
  obtain ⟨s, hreach, htest⟩ := Reach.of_replay (M := machine Unit)
    (fun s call => s.permits call && (s.fits call && s.finalAfterCancel call))
    (fun s call h => by simp only [Bool.and_eq_true] at h; exact h)
    (.start ⟨4, fun _ => Owner.new ⟨0⟩, rfl⟩)
    [.insert 0 (), .notify 0 ⟨7, cqeMore⟩, .cancel 0, .insert 1 ()]
    (fun s => (s.owner 0).cancel = some (true, [⟨7, cqeMore⟩]) && (s.owner 0).drops = [])
    rfl
  simp only [Bool.and_eq_true, decide_eq_true_eq] at htest
  exact ⟨s, (cancelled_kept_iff hreach).1, htest⟩

/-- Cancelled, then sent a result with more to come: the slot is vacant, the
cancellation released, and the last result panics. -/
theorem more_after_cancel_panics :
    ∃ s : Clients Unit, Reach (machine Unit) Fits s ∧ 0 < s.born ∧
      (s.owner 0).cancel = some (true, []) ∧ ¬ s.CancelKept 0 ∧
      (s.owner 0).drops = [[⟨7, cqeMore⟩]] ∧ s.permits (.notify 0 ⟨8, 0⟩) = true ∧
      s.exec (.notify 0 ⟨8, 0⟩) = .error (.expect "unexpected key") := by
  obtain ⟨s, hreach, htest⟩ := Reach.of_replay (M := machine Unit)
    (fun s call => s.permits call && s.fits call)
    (fun s call h => by simp only [Bool.and_eq_true] at h; exact h)
    (.start ⟨4, fun _ => Owner.new ⟨0⟩, rfl⟩)
    [.insert 0 (), .cancel 0, .notify 0 ⟨7, cqeMore⟩]
    (fun s => s.born = 1 && s.set.slab.get 0 = none && s.owner 0 = { Owner.new ⟨0⟩ with
      notified := [⟨7, cqeMore⟩], cancel := some (true, []), consumed := [⟨7, cqeMore⟩],
      drops := [[⟨7, cqeMore⟩]] })
    rfl
  simp only [Bool.and_eq_true, decide_eq_true_eq] at htest
  obtain ⟨⟨hborn, hget⟩, howner⟩ := htest
  have hvacant : s.set.notify ⟨0⟩ ⟨8, 0⟩ = .error (.expect "unexpected key") :=
    CompletionSet.withCompletion_of_vacant hget
  refine ⟨s, hreach, by omega, by rw [howner], fun hkept => ?_, by rw [howner], ?_, ?_⟩
  · have hfinal : (s.owner 0).finalNotified = false := by
      rw [howner]
      rfl
    have hreleased := hkept.released
    rw [hfinal, howner] at hreleased
    simp at hreleased
  · simp [permits, hborn, howner, Owner.finalNotified, RingResult.hasMore, cqeMore]
  · simp [exec, howner, Owner.new, hvacant, bind, Except.bind]

end Inel.Reactor.Clients
