import Inel.Reactor.Owners

/-!
# Every result reaches its owner

The set keeps one mailbox for each owner that is not through with its key, under
that key and under no other. From this invariant follow the delivery law of the
set, that no call of a well-behaved owner panics, and what becomes of the
results that arrive after a cancel.
-/

namespace Inel.Reactor.Clients

open SlotTable Transitions

variable {W : Type} {s s' : Clients W} {id : OwnerId}

/-! ## The invariant -/

/-- The mailboxes of the set are those of the owners that still have one. -/
structure Inv (s : Clients W) : Prop where
  wf : s.set.Wf
  here : ∀ id < s.born, ∀ box, (s.owner id).mailbox id = some box →
    s.set.mailbox (s.owner id).key.asUsize = some box
  owned : ∀ slot, s.set.mailbox slot ≠ none →
    ∃ id < s.born, (s.owner id).key.asUsize = slot ∧ (s.owner id).mailbox id ≠ none
  distinct : ∀ id < s.born, ∀ other < s.born, (s.owner id).mailbox id ≠ none →
    (s.owner other).mailbox other ≠ none → (s.owner id).key = (s.owner other).key → id = other
  books : ∀ id < s.born, (s.owner id).Books

theorem start_inv (capacity : Nat) (owner : OwnerId → Owner) :
    (start capacity owner : Clients W).Inv where
  wf := CompletionSet.withCapacity_wf capacity
  here := by simp [start]
  owned := by simp [start]
  distinct := by simp [start]
  books := by simp [start]

/-- A call on the key of an owner that has a mailbox, and the new books of that owner. -/
theorem Inv.update {set : CompletionSet W OwnerId} {seen : Owner} (h : s.Inv) (hid : id < s.born)
    (hbox : (s.owner id).mailbox id ≠ none) (hkey : seen.key = (s.owner id).key)
    (hbooks : seen.Books)
    (hupd : s.set.Updates set (s.owner id).key.asUsize (seen.mailbox id)) :
    Inv { s with set := set, owner := Function.update s.owner id seen } := by
  have hapart : ∀ other < s.born, other ≠ id → (s.owner other).mailbox other ≠ none →
      (s.owner other).key.asUsize ≠ (s.owner id).key.asUsize := by
    intro other hother hne hsome heq
    exact hne (h.distinct other hother id hid hsome hbox (Key.asUsize_inj.mp heq))
  constructor
  · exact hupd.wf
  · intro other hother box hsome
    by_cases heq : other = id
    · subst heq
      simp only [Function.update_self] at hsome ⊢
      rw [hkey, hupd.here, hsome]
    · simp only [Function.update_of_ne heq] at hsome ⊢
      rw [hupd.others _ (hapart other hother heq (by simp [hsome]))]
      exact h.here other hother box hsome
  · intro slot hslot
    by_cases heq : slot = (s.owner id).key.asUsize
    · subst heq
      refine ⟨id, hid, ?_, ?_⟩
      · simp [hkey]
      · simpa [hupd.here] using hslot
    · simp only [hupd.others slot heq] at hslot
      obtain ⟨other, hother, hkey', hsome⟩ := h.owned slot hslot
      have hne : other ≠ id := by
        intro heq
        subst heq
        exact heq hkey'.symm
      exact ⟨other, hother, by simpa [hne] using hkey', by simpa [hne] using hsome⟩
  · intro one hone two htwo hsome hsome' heq
    have hbefore : ∀ other, (Function.update s.owner id seen other).mailbox other ≠ none →
        (s.owner other).mailbox other ≠ none := by
      intro other hother
      by_cases hne : other = id
      · subst hne
        exact hbox
      · simpa [hne] using hother
    have hkeys : ∀ other, (Function.update s.owner id seen other).key = (s.owner other).key := by
      intro other
      by_cases hne : other = id
      · subst hne
        simpa using hkey
      · simp [hne]
    simp only [hkeys] at heq
    exact h.distinct one hone two htwo (hbefore one hsome) (hbefore two hsome') heq
  · intro other hother
    by_cases heq : other = id
    · subst heq
      simpa using hbooks
    · simpa [heq] using h.books other hother

theorem Inv.insert {slot : Nat} (h : s.Inv) (hadmits : s.set.slab.admits slot = true)
    (hfits : slot < 2 ^ 32) (waker : W) :
    Inv ⟨(s.set.insert slot waker).2,
      Function.update s.owner s.born (Owner.new (s.set.insert slot waker).1), s.born + 1⟩ := by
  obtain ⟨hkey, hwf, hhere, _, hothers⟩ := CompletionSet.insert_spec h.wf hadmits hfits waker
  have hvacant : s.set.mailbox slot = none :=
    h.wf.mailbox_eq_none_iff.mpr (Slab.get_of_admits hadmits)
  have hnew : ∀ id, (Owner.new (s.set.insert slot waker).1).mailbox id =
      some (.live [] true) := by
    intro id
    simp [Owner.mailbox, Owner.new, Owner.finalReturned, Owner.finalNotified]
  have hold : ∀ id < s.born, Function.update s.owner s.born
      (Owner.new (s.set.insert slot waker).1) id = s.owner id := fun id hid =>
    Function.update_of_ne (Nat.ne_of_lt hid) _ _
  -- a key in use denotes an occupied slot, hence not the one just filled
  have hused : ∀ id < s.born, (s.owner id).mailbox id ≠ none →
      (s.owner id).key.asUsize ≠ slot := by
    intro id hid hsome heq
    obtain ⟨box, hbox⟩ := Option.ne_none_iff_exists'.mp hsome
    have := h.here id hid box hbox
    rw [heq, hvacant] at this
    simp at this
  constructor
  · exact hwf
  · intro id hid box hbox
    dsimp only at hid hbox ⊢
    rcases Nat.lt_succ_iff_lt_or_eq.mp hid with hlt | rfl
    · rw [hold id hlt] at hbox ⊢
      rw [(hothers _ (hused id hlt (by simp [hbox]))).1]
      exact h.here id hlt box hbox
    · simp only [Function.update_self, hnew] at hbox ⊢
      change (s.set.insert slot waker).2.mailbox (s.set.insert slot waker).1.asUsize = _
      rw [hkey, hhere, hbox]
  · intro slot' hslot'
    dsimp only at hslot' ⊢
    by_cases heq : slot' = slot
    · subst heq
      exact ⟨s.born, Nat.lt_succ_self _, by simp [Owner.new, hkey], by simp [hnew]⟩
    · rw [(hothers slot' heq).1] at hslot'
      obtain ⟨id, hid, hkey', hsome⟩ := h.owned slot' hslot'
      exact ⟨id, Nat.lt_succ_of_lt hid, by rw [hold id hid]; exact hkey',
        by rw [hold id hid]; exact hsome⟩
  · intro id hid other hother hsome hsome' heq
    dsimp only at hid hother hsome hsome' heq
    rcases Nat.lt_succ_iff_lt_or_eq.mp hid with hlt | rfl <;>
      rcases Nat.lt_succ_iff_lt_or_eq.mp hother with hlt' | rfl
    · rw [hold id hlt] at hsome heq
      rw [hold other hlt'] at hsome' heq
      exact h.distinct id hlt other hlt' hsome hsome' heq
    · rw [hold id hlt] at hsome heq
      simp only [Function.update_self] at heq
      exact absurd (by rw [heq]; exact hkey) (hused id hlt hsome)
    · rw [hold other hlt'] at hsome' heq
      simp only [Function.update_self] at heq
      exact absurd (by rw [← heq]; exact hkey) (hused other hlt' hsome')
    · rfl
  · intro id hid
    dsimp only at hid ⊢
    rcases Nat.lt_succ_iff_lt_or_eq.mp hid with hlt | rfl
    · rw [hold id hlt]
      exact h.books id hlt
    · simpa using Owner.Books.new _

/-! ## One step of an owner with a mailbox -/

/-- What a call did to the books of its owner, the set agreeing with them. -/
def StepsTo (s : Clients W) (id : OwnerId) (call : Call W) (seen : Owner) : Prop :=
  ∃ set, s.exec call = .ok { s with set := set, owner := Function.update s.owner id seen } ∧
    Inv { s with set := set, owner := Function.update s.owner id seen }

theorem mailbox_of_live (id : OwnerId) {owner : Owner} (hcancel : owner.cancel = none)
    (hfinal : owner.finalReturned = false) : owner.mailbox id =
      some (.live (owner.notified.drop owner.returned.length) (!owner.finalNotified)) := by
  simp [Owner.mailbox, hcancel, hfinal]

theorem mailbox_of_cancelled (id : OwnerId) {owner : Owner} (hcancel : owner.cancel.isSome)
    (hfinal : owner.finalNotified = false) : owner.mailbox id = some (.cancelled id) := by
  obtain ⟨_, hsome⟩ := Option.isSome_iff_exists.mp hcancel
  simp [Owner.mailbox, hsome, hfinal]

theorem Inv.notify_live (h : s.Inv) (hid : id < s.born) (hcancel : (s.owner id).cancel = none)
    (hfinal : (s.owner id).finalNotified = false) (result : RingResult) :
    s.StepsTo id (.notify id result)
      { s.owner id with notified := (s.owner id).notified ++ [result] } := by
  have hbooks := h.books id hid
  obtain ⟨rest, hrest⟩ := (hbooks.open_ hcancel).1
  have hreturned : (s.owner id).finalReturned = false := by
    refine Owner.finalReturned_eq_false_iff.mpr fun earlier hmem => ?_
    refine Owner.finalNotified_eq_false_iff.mp hfinal earlier ?_
    rw [← hrest]
    exact List.mem_append_left _ hmem
  have hbox := mailbox_of_live id hcancel hreturned
  have hset := h.here id hid _ hbox
  rw [hfinal, Bool.not_false] at hset
  obtain ⟨waker, set, _, hok, hupd⟩ := CompletionSet.notify_live h.wf hset result
  refine ⟨set, by simp [exec, hok, bind, Except.bind, pure, Except.pure], ?_⟩
  refine h.update hid (by simp [hbox]) rfl (hbooks.notify hcancel hfinal result) ?_
  have hpending : ((s.owner id).notified ++ [result]).drop (s.owner id).returned.length =
      (s.owner id).notified.drop (s.owner id).returned.length ++ [result] := by
    rw [← hrest, List.append_assoc, List.drop_left, List.drop_left]
  have hmore : ((s.owner id).notified ++ [result]).any (!·.hasMore) = !result.hasMore := by
    have hnone : (s.owner id).notified.any (!·.hasMore) = false := hfinal
    simp [List.any_append, hnone]
  simp only [Owner.mailbox, hcancel, Owner.finalReturned, Owner.finalNotified, hpending, hmore,
    Bool.not_not]
  rw [if_neg (by simpa [Owner.finalReturned] using hreturned)]
  exact hupd

theorem Inv.notify_cancelled (h : s.Inv) (hid : id < s.born)
    (hcancel : (s.owner id).cancel.isSome) (hfinal : (s.owner id).finalNotified = false)
    {result : RingResult} (hmore : result.hasMore = false) :
    s.StepsTo id (.notify id result)
      { s.owner id with
        notified := (s.owner id).notified ++ [result],
        consumed := (s.owner id).consumed ++ [result],
        drops := (s.owner id).drops ++ [(s.owner id).consumed ++ [result]] } := by
  have hbox := mailbox_of_cancelled id hcancel hfinal
  obtain ⟨set, hok, hupd⟩ :=
    CompletionSet.notify_cancelled h.wf (h.here id hid _ hbox) result
  refine ⟨set, by simp [exec, hok, bind, Except.bind, pure, Except.pure], ?_⟩
  refine h.update hid (by simp [hbox]) rfl
    ((h.books id hid).notifyCancelled hcancel hfinal hmore) ?_
  obtain ⟨_, hsome⟩ := Option.isSome_iff_exists.mp hcancel
  simpa [Owner.mailbox, hsome, Owner.finalNotified, hmore] using hupd

theorem Inv.result (h : s.Inv) (hid : id < s.born) (huses : (s.owner id).uses = true) :
    s.StepsTo id (.result id)
      { s.owner id with
        returned := (s.owner id).returned ++
          ((s.owner id).notified.drop (s.owner id).returned.length).head?.toList } := by
  simp only [Owner.uses, Bool.and_eq_true, Option.isNone_iff_eq_none, Bool.not_eq_eq_eq_not,
    Bool.not_true] at huses
  obtain ⟨hcancel, hreturned⟩ := huses
  have hbooks := h.books id hid
  obtain ⟨rest, hrest⟩ := (hbooks.open_ hcancel).1
  have hbox := mailbox_of_live id hcancel hreturned
  have hset := h.here id hid _ hbox
  obtain ⟨set, hok, hupd⟩ := CompletionSet.result_live h.wf hset
  refine ⟨set, by simp [exec, hok, bind, Except.bind, pure, Except.pure], ?_⟩
  refine h.update hid (by simp [hbox]) rfl (hbooks.take hcancel) ?_
  have hdrop : (s.owner id).notified.drop (s.owner id).returned.length = rest := by
    rw [← hrest, List.drop_left]
  have hnone : (s.owner id).returned.any (!·.hasMore) = false := hreturned
  rw [hdrop] at hupd ⊢
  convert hupd using 1
  cases rest with
  | nil =>
      -- nothing is pending, so more must follow: the last result was not returned
      have hfinal : (s.owner id).finalNotified = false := by
        rw [List.append_nil] at hrest
        rw [Owner.finalNotified, ← hrest]
        exact hnone
      have hany : (s.owner id).notified.any (!·.hasMore) = false := hfinal
      simp [Owner.mailbox, hcancel, hdrop, Mailbox.remaining, Owner.finalReturned,
        Owner.finalNotified, hnone, hany]
  | cons next rest =>
      have hnotified : (s.owner id).finalNotified = (!next.hasMore || rest.any (!·.hasMore)) := by
        rw [Owner.finalNotified, ← hrest, List.any_append, hnone]
        simp
      have hlast : next.hasMore = false → rest = [] := by
        intro hmore
        by_contra hne
        have hmem : next ∈ (s.owner id).notified.dropLast := by
          rw [← hrest, List.dropLast_append_of_ne_nil (by simp)]
          refine List.mem_append_right _ ?_
          cases rest with
          | nil => exact absurd rfl hne
          | cons later rest => simp
        rw [hbooks.lastOnly next hmem] at hmore
        exact Bool.noConfusion hmore
      have hdrop' : (s.owner id).notified.drop ((s.owner id).returned.length + 1) = rest := by
        rw [← List.drop_drop, hdrop]
        rfl
      simp only [List.head?_cons, Option.toList_some, Owner.mailbox, hcancel, Owner.finalReturned,
        List.any_append, hnone, Bool.false_or, List.any_cons, List.any_nil, Bool.or_false,
        List.length_append, List.length_cons, List.length_nil, Nat.zero_add, hdrop',
        List.tail_cons, Mailbox.remaining]
      cases hmore : next.hasMore with
      | false => simp [hlast hmore, hnotified, hmore]
      | true =>
          cases rest with
          | nil => simp [Owner.finalNotified, ← hrest, hnone, hmore]
          | cons later rest => simp [Owner.finalNotified]

theorem Inv.cancel (h : s.Inv) (hid : id < s.born) (huses : (s.owner id).uses = true) :
    s.StepsTo id (.cancel id)
      { s.owner id with
        cancel := some (!(s.owner id).finalNotified, (s.owner id).notified),
        consumed := (s.owner id).consumed ++
          (s.owner id).notified.drop (s.owner id).returned.length,
        drops := (s.owner id).drops ++
          if (s.owner id).finalNotified then
            [(s.owner id).consumed ++ (s.owner id).notified.drop (s.owner id).returned.length]
          else [] } := by
  simp only [Owner.uses, Bool.and_eq_true, Option.isNone_iff_eq_none, Bool.not_eq_eq_eq_not,
    Bool.not_true] at huses
  obtain ⟨hcancel, hreturned⟩ := huses
  have hbox := mailbox_of_live id hcancel hreturned
  have hset := h.here id hid _ hbox
  obtain ⟨set, hok, hupd⟩ := CompletionSet.cancel_live h.wf hset id
  refine ⟨set, ?_, ?_⟩
  · cases hfinal : (s.owner id).finalNotified <;>
      simp [exec, hok, hfinal, bind, Except.bind, pure, Except.pure, record_consume_map,
        -List.map_drop]
  · refine h.update hid (by simp [hbox]) rfl ((h.books id hid).cancelWith hcancel) ?_
    convert hupd using 1
    cases hfinal : (s.owner id).finalNotified <;>
      simp_all [Owner.mailbox, Mailbox.afterCancel, Owner.finalNotified]

/-! ## Whole runs -/

theorem Inv.step {call : Call W} (h : s.Inv) (hpermits : s.permits call = true)
    (hcalm : s.finalAfterCancel call = true) (hfits : s.fits call = true) :
    ∃ s', s.exec call = .ok s' ∧ s'.Inv := by
  cases call with
  | insert slot waker =>
      have hslot : slot < 2 ^ 32 :=
        Slab.lt_of_admits hpermits h.wf.slots_le (by simpa [fits] using hfits)
      exact ⟨_, rfl, h.insert hpermits hslot waker⟩
  | notify id result =>
      simp only [permits, Bool.and_eq_true, decide_eq_true_eq, Bool.not_eq_true'] at hpermits
      obtain ⟨hid, hfinal⟩ := hpermits
      cases hcancel : (s.owner id).cancel with
      | none =>
          obtain ⟨set, hok, hinv⟩ := h.notify_live hid hcancel hfinal result
          exact ⟨_, hok, hinv⟩
      | some cancelled =>
          have hmore : result.hasMore = false := by
            simpa [finalAfterCancel, hcancel] using hcalm
          obtain ⟨set, hok, hinv⟩ := h.notify_cancelled hid (by simp [hcancel]) hfinal hmore
          exact ⟨_, hok, hinv⟩
  | result id =>
      simp only [permits, Bool.and_eq_true, decide_eq_true_eq] at hpermits
      obtain ⟨set, hok, hinv⟩ := h.result hpermits.1 hpermits.2
      exact ⟨_, hok, hinv⟩
  | cancel id =>
      simp only [permits, Bool.and_eq_true, decide_eq_true_eq] at hpermits
      obtain ⟨set, hok, hinv⟩ := h.cancel hpermits.1 hpermits.2
      exact ⟨_, hok, hinv⟩

theorem Inv.of_reach (h : Reach (calmMachine W) Fits s) : s.Inv := by
  refine h.invariant ?_ ?_
  · rintro _ ⟨capacity, owner, rfl⟩
    exact start_inv capacity owner
  · rintro s call s' hinv ⟨hpermits, hcalm⟩ hfits hok
    obtain ⟨_, hok', hinv'⟩ := hinv.step hpermits hcalm hfits
    obtain rfl := Except.ok.inj (hok.symm.trans hok')
    exact hinv'

/-- What an owner was given and what its cancellation consumed are its own
results in order, all of them once it is through with its key. -/
structure Delivered (s : Clients W) (id : OwnerId) : Prop where
  inOrder : (s.owner id).returned ++ (s.owner id).consumed <+: (s.owner id).notified
  complete : (s.owner id).uses = false →
    (s.owner id).returned ++ (s.owner id).consumed = (s.owner id).notified
  next : (s.owner id).uses = true →
    ∃ set, s.set.result (s.owner id).key =
      .ok ⟨((s.owner id).notified.drop (s.owner id).returned.length).head?, set, []⟩
  accepted : ∀ accepted before, (s.owner id).cancel = some (accepted, before) →
    accepted = before.all (·.hasMore)
  released : (s.owner id).drops =
    if (s.owner id).cancel.isSome && (s.owner id).finalNotified then [(s.owner id).consumed]
    else []

theorem Inv.delivered (h : s.Inv) (hid : id < s.born) : s.Delivered id := by
  have hbooks := h.books id hid
  cases hcancel : (s.owner id).cancel with
  | none =>
      obtain ⟨horder, hconsumed, hdrops⟩ := hbooks.open_ hcancel
      refine ⟨?_, ?_, ?_, by simp [hcancel], by simp [hcancel, hdrops]⟩
      · simpa [hconsumed] using horder
      · intro huses
        have hfinal : (s.owner id).finalReturned = true := by
          simpa [Owner.uses, hcancel] using huses
        simpa [hconsumed] using hbooks.returned_eq hcancel hfinal
      · intro huses
        have hfinal : (s.owner id).finalReturned = false := by
          simpa [Owner.uses, hcancel] using huses
        have hset := h.here id hid _ (mailbox_of_live id hcancel hfinal)
        obtain ⟨set, hok, -⟩ := CompletionSet.result_live h.wf hset
        exact ⟨set, hok⟩
  | some cancelled =>
      obtain ⟨hsum, _, haccepted, hdrops⟩ := hbooks.closed _ _ hcancel
      refine ⟨by rw [hsum], fun _ => hsum, by simp [Owner.uses, hcancel], ?_, ?_⟩
      · intro accepted before heq
        rw [hcancel, Option.some.injEq] at heq
        rw [heq] at haccepted
        exact haccepted
      · simpa [hcancel] using hdrops

/-- With fewer than `2 ^ 32` entries in the slab at each insertion no call panics
and every owner gets its own results, once and in order. -/
theorem every_result_reaches_its_owner (h : Reach (calmMachine W) Fits s) :
    (∀ call, (calmMachine W).permits s call → s.fits call = true → ∃ s', s.exec call = .ok s') ∧
      ∀ id < s.born, s.Delivered id := by
  have hinv := Inv.of_reach h
  refine ⟨?_, fun id hid => hinv.delivered hid⟩
  rintro call ⟨hpermits, hcalm⟩ hfits
  obtain ⟨s', hok, -⟩ := hinv.step hpermits hcalm hfits
  exact ⟨s', hok⟩

def calmly (s : Clients W) (call : Call W) : Bool :=
  s.permits call && s.finalAfterCancel call && s.fits call

theorem calmly_spec (s : Clients W) (call : Call W) (h : s.calmly call = true) :
    (calmMachine W).permits s call ∧ Fits s call := by
  simp only [calmly, Bool.and_eq_true] at h
  exact ⟨h.1, h.2⟩

/-- Two owners side by side, the first cancelled between its two results. -/
theorem delivered_side_by_side :
    ∃ s : Clients Unit, s.Delivered 0 ∧
      s.owner 0 = { Owner.new ⟨0⟩ with
        notified := [⟨7, cqeMore⟩, ⟨9, 0⟩], cancel := some (true, [⟨7, cqeMore⟩]),
        consumed := [⟨7, cqeMore⟩, ⟨9, 0⟩], drops := [[⟨7, cqeMore⟩, ⟨9, 0⟩]] } := by
  obtain ⟨s, hreach, htest⟩ := Reach.of_replay (M := calmMachine Unit) calmly calmly_spec
    (.start ⟨4, fun _ => Owner.new ⟨0⟩, rfl⟩)
    [.insert 0 (), .notify 0 ⟨7, cqeMore⟩, .insert 1 (), .notify 1 ⟨8, 0⟩, .cancel 0, .result 1,
      .notify 0 ⟨9, 0⟩]
    (fun s => 0 < s.born && s.owner 0 = { Owner.new ⟨0⟩ with
        notified := [⟨7, cqeMore⟩, ⟨9, 0⟩], cancel := some (true, [⟨7, cqeMore⟩]),
        consumed := [⟨7, cqeMore⟩, ⟨9, 0⟩], drops := [[⟨7, cqeMore⟩, ⟨9, 0⟩]] }) rfl
  simp only [Bool.and_eq_true, decide_eq_true_eq] at htest
  exact ⟨s, (every_result_reaches_its_owner hreach).2 0 htest.1, htest.2⟩

/-! ## Keys beyond 32 bits -/

/-- `n` owners that inserted and did nothing since. -/
def crowded (n : Nat) : Clients Unit :=
  ⟨⟨⟨List.replicate n (some (.vacant ()))⟩, .withCapacity 4⟩,
    fun id => Owner.new (Key.fromUsize id), n⟩

theorem reach_crowded (n : Nat) : Reach (calmMachine Unit) Any (crowded n) := by
  induction n with
  | zero => exact .start ⟨4, fun id => Owner.new (Key.fromUsize id), rfl⟩
  | succ n ih =>
      refine ih.step (i := .insert n ()) ⟨?_, rfl⟩ trivial ?_
      · simp [permits, crowded, Slab.admits]
      · simp [calmMachine, exec, crowded, CompletionSet.insert, Slab.insert, Completion.new,
          List.replicate_succ']

/-- A result for a later owner of key zero lands in the first slot, where the
first owner takes it. -/
theorem reach_misdelivered {n late : Nat} (hlate : late < n) (hne : late ≠ 0)
    (hwrap : Key.fromUsize late = ⟨0⟩) (result : RingResult) (hmore : result.hasMore = false) :
    ∃ s, Reach (calmMachine Unit) Any s ∧ 0 < s.born ∧ s.set.slab.get 0 = none ∧
      s.owner 0 = { Owner.new ⟨0⟩ with returned := [result] } := by
  have hslot : 0 < (crowded n).set.slab.slots.length := by
    simp only [crowded, List.length_replicate]
    omega
  have hget : (crowded n).set.slab.get 0 = some (.vacant ()) := by
    simp only [crowded, List.length_replicate] at hslot
    simp [crowded, Slab.get, hslot]
  have hkey : ∀ id, ((crowded n).owner id).key = Key.fromUsize id := fun _ => rfl
  have hnotify : (crowded n).set.notify ⟨0⟩ result =
      .ok ⟨(), (crowded n).set.store 0 (.single result) (crowded n).set.queues, [.wake ()]⟩ :=
    CompletionSet.notify_single hget hmore
  have hresult : ((crowded n).set.store 0 (.single result) (crowded n).set.queues).result ⟨0⟩ =
      .ok ⟨some result, _, []⟩ :=
    CompletionSet.withCompletion_of_get
      (by rw [show (⟨0⟩ : Key).asUsize = 0 from rfl, CompletionSet.get_store hslot]; rfl) rfl
  have hnotified := (reach_crowded n).step (i := .notify late result)
    ⟨by simp [permits, crowded, hlate, Owner.new, Owner.finalNotified], rfl⟩ trivial
    (by simp only [calmMachine, exec, hkey, hwrap, hnotify]; rfl)
  have hfirst : ∀ seen : Owner, Function.update (crowded n).owner late seen 0 = Owner.new ⟨0⟩ :=
    fun _ => Function.update_of_ne hne.symm _ _
  have hpos : 0 < n := by omega
  refine ⟨_, hnotified.step (i := .result 0) ⟨?_, rfl⟩ trivial
    (by simp only [calmMachine, exec, record_cons, record_nil, recordEffect_wake, hfirst,
      Owner.new, hresult]; rfl), hpos, ?_, by simp [Owner.new]⟩
  · simp only [permits, record_cons, record_nil, recordEffect_wake, hfirst]
    simp [Owner.uses, Owner.new, Owner.finalReturned, crowded, hpos]
  · change (((crowded n).set.store 0 _ _).store 0 _ _).slab.get 0 = none
    have hlength : ((crowded n).set.store 0 (.single result)
        (crowded n).set.queues).slab.slots.length = (crowded n).set.slab.slots.length := by
      simp [CompletionSet.store, Completion.isFinished]
    rw [CompletionSet.get_store (by rw [hlength]; exact hslot)]
    rfl

/-- Owner `2 ^ 32` shares key zero with the first owner, who takes its result and
whose own result then panics. -/
theorem results_cross_beyond_two_pow :
    ∃ s : Clients Unit, Reach (calmMachine Unit) Any s ∧ 0 < s.born ∧ ¬ s.Delivered 0 ∧
      (calmMachine Unit).permits s (.notify 0 ⟨0, 0⟩) ∧
      s.exec (.notify 0 ⟨0, 0⟩) = .error (.expect "unexpected key") := by
  obtain ⟨s, hreach, hborn, hget, howner⟩ :=
    reach_misdelivered (Nat.lt_succ_self (2 ^ 32)) (by omega) (by decide) ⟨0, 0⟩ rfl
  refine ⟨s, hreach, hborn, fun hdelivered => ?_,
    ⟨?_, by simp [finalAfterCancel, RingResult.hasMore]⟩, ?_⟩
  · have horder := hdelivered.inOrder
    simp [howner, Owner.new] at horder
  · simp [permits, hborn, howner, Owner.new, Owner.finalNotified]
  · have hvacant : s.set.notify ⟨0⟩ ⟨0, 0⟩ = .error (.expect "unexpected key") :=
      CompletionSet.withCompletion_of_vacant hget
    simp [exec, howner, Owner.new, hvacant, bind, Except.bind]

end Inel.Reactor.Clients
