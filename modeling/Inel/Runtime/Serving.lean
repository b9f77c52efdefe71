import Inel.Runtime.Polling

/-!
# Dropping and completing

A submission is dropped by its task, as that is polled or as its future is dropped,
and completed while the executor waits. Neither drops a future.
-/

namespace Inel.Runtime

open Transitions
open Reactor hiding Move Phase Stage
open Tasks (TaskId Executor)

variable {O E Out T C : Type} {op : MultiOp O E Out C} {r r' : Runtime O T C}

/-! ## Drops -/

/-- A drop, by what it did to the mailboxes. -/
inductive DropSpec (op : MultiOp O E Out C) (r r' : Runtime O T C) (held : Held O) : Prop
  | cancels (key : Key) (pending : List RingResult) (more : Bool)
      (hkey : held.key = some key)
      (hbox : r.system.ring.completions.mailbox key.asUsize = some (.live pending more))
      (htouches : r.system.ring.completions.Touches r'.system.ring.completions key.asUsize
        (Mailbox.afterCancel (op.cancel held.submission.op) more))
      (hoccupant : r'.system.occupant = r.system.occupant)
  | leaves (hkey : held.key = none) (hsystem : r'.system = r.system)

/-- A task acts for itself: it is polled, or its future is being dropped. -/
def Acts (executor : Executor T) (owner : TaskId) : Prop :=
  executor.phase = .polling owner ∨
    executor.phase ≠ .waiting ∧ (executor.task owner).stage = .dropping

theorem Acts.calls {executor : Executor T} {owner : TaskId} (h : Acts executor owner)
    (hlt : owner < executor.born) : executor.calls = true := by
  rcases h with hphase | ⟨-, hstage⟩
  · simp [Executor.calls, hphase]
  · unfold Executor.calls
    have hdropping : executor.isDropping = true := by
      simp only [Executor.isDropping, List.any_eq_true, List.mem_range, beq_iff_eq]
      exact ⟨owner, hlt, hstage⟩
    split
    · exact hdropping
    · exact hdropping
    · rfl

/-- A waker that a task finds in its own mailbox is not its last reference. -/
theorem Inv.acts_loopRefs (h : Inv op r) {owner : TaskId} (hacts : Acts r.executor owner)
    {slot : Nat} (hwaker : r.system.ring.completions.waker slot = some owner) :
    owner ∈ r.executor.queue ++ r.executor.loopRefs := by
  rcases hacts with hphase | ⟨-, hstage⟩
  · simp [Executor.loopRefs, hphase]
  · rw [h.waker_live hwaker] at hstage
    exact Tasks.Stage.noConfusion hstage

theorem held_of_drops {i : Nat} (hpermits : r.permits op (.drop i) = true) :
    ∃ held, r.held[i]? = some held ∧ held.dropped = false ∧ Acts r.executor held.owner := by
  simp only [permits, allows, Bool.and_eq_true] at hpermits
  obtain ⟨held, hget, htest⟩ := held_of_any hpermits.1
  simp only [Bool.and_eq_true, Bool.not_eq_true', Bool.or_eq_true, beq_iff_eq, bne_iff_ne] at htest
  exact ⟨held, hget, htest⟩

theorem Inv.drop {i : Nat} (h : Inv op r) (hpermits : r.permits op (.drop i) = true)
    (hcalm : r.Calm op (.drop i)) (hok : r.exec op (.drop i) = .ok r') :
    (∃ held held', r.held[i]? = some held ∧ Acts r.executor held.owner ∧
      held.dropped = false ∧ DropSpec op r r' held ∧ r'.held = r.held.set i held' ∧
      held'.owner = held.owner ∧ held'.dropped = true ∧ held'.id = held.id ∧
      held'.submission = held.submission) ∧
      Inv op r' ∧ Undisturbed r.executor r'.executor := by
  obtain ⟨held, hget, hdropped, hacts⟩ := held_of_drops hpermits
  have hcalls := hacts.calls (h.owners i held hget).1
  simp only [exec, hget] at hok
  obtain ⟨ran, hdrop, hret⟩ := bind_eq_ok hok
  obtain rfl := Except.ok.inj hret
  have hgone : ({ held with uses := held.uses ++ ran.value, dropped := true } : Held O).key =
      none := Held.key_of_dropped rfl
  rcases exec_of_drop hdrop with ⟨hstate, hsame⟩ | ⟨key, done, hstate, hcancel, hring, hexec⟩
  · have hnone : held.key = none := by
      unfold Held.key
      split
      · next key hkey => exact absurd hkey (hstate key)
      · rfl
    refine ⟨⟨held, _, hget, hacts, hdropped, .leaves hnone hsame, rfl, rfl, rfl, rfl, rfl⟩, ?_⟩
    rw [hsame]
    refine h.call _ _ _ h.system rfl ?_ (List.Perm.refl _) ?_ ?_ h.asked
    · exact ⟨hcalls, fun _ _ => Or.inl rfl, fun id hid hno => by simp [hid] at hno,
        fun id hid hno => by simp [hid] at hno⟩
    · exact h.holds.replace hget hnone hdropped hgone rfl
    · exact owners_of_set hget rfl (by simp)
  · have hown : held.key = some key := Held.key_of_submitted hstate hdropped
    obtain ⟨pending, more, hbox, -, hwaker⟩ := h.held_live hget hown
    have htouches := Ring.cancel_touches h.books.wf hbox hcancel
    rw [hring] at htouches
    have hset : (afterDrop r.system held.submission.state ran.state).ring.completions =
        ran.state.completions := by
      simp only [afterDrop, hstate]
    have hslot : held.seat 0 = key.asUsize := by
      simp only [Held.seat, hstate]
    have hcommand : r.command op (.drop i) = some (.cancel key (op.entryCancel key.asU64).isSome
        (op.cancel held.submission.op)) := by
      simp [command, hget, hstate]
    rw [hslot]
    refine ⟨⟨held, _, hget, hacts, hdropped, .cancels key pending more hown hbox ?_ ?_, rfl, rfl,
      rfl, rfl, rfl⟩, h.call _ _ _ (h.follow hpermits hcalm hcommand hexec) ?_ ?_ ?_ ?_ ?_ ?_⟩
    · simpa only [called, hset] using htouches
    · simp only [called, afterDrop, hstate]
    · simp only [afterDrop, hstate]
    · rw [hset]
      refine ⟨hcalls, fun _ _ => htouches.kept, ?_, ?_⟩
      · intro id hid hasleep
        rcases htouches.kept with hsame | hgone
        · rw [hsame, hasleep] at hid
          simp at hid
        · simp [hgone] at hid
      · intro id hid _
        obtain rfl := hwaker id hid
        exact h.acts_loopRefs hacts hid
    · rw [hset]
      exact htouches.census
    · simp only [afterDrop, hstate]
      refine h.holds.touch hget hown htouches rfl rfl ?_ ?_ ?_
      · intro left more' hleft
        cases more <;> simp [Mailbox.afterCancel] at hleft
      · intro key' hkey'
        rw [hgone] at hkey'
        simp at hkey'
      · intro cancel hcancel
        cases more <;> simp [Mailbox.afterCancel] at hcancel
        exact ⟨rfl, hcancel.symm⟩
    · exact owners_of_set hget rfl (by simp)
    · exact h.asked.trans (owed_length_le hexec (by simp))

/-! ## Completions -/

/-- Reading a completion has ring and kernel do it, wakes who waits and drops a waker
of which nothing more will come. -/
theorem Inv.handle {i : Nat} (h : Inv op r) (hpermits : r.permits op (.handle i) = true)
    (hcalm : r.Calm op (.handle i)) (hok : r.exec op (.handle i) = .ok r') :
    (∃ entry result rest, r.system.taken[i]? = some ⟨entry, result :: rest⟩ ∧
      Handled r.system r'.system i entry result) ∧ r'.held = r.held ∧
      r'.system.occupant = r.system.occupant ∧ r'.system.waiting = r.system.waiting ∧
      (∀ id, .wake id ∈ effects r.system i → id ∈ r'.executor.queue) ∧
      Inv op r' ∧ Undisturbed r.executor r'.executor := by
  obtain ⟨system, hexec, hret⟩ := bind_eq_ok hok
  obtain rfl := Except.ok.inj hret
  have hbooks := h.books
  have hreach := h.follow hpermits hcalm rfl hexec
  simp only [permits, command, Option.all_some, Bool.and_eq_true, System.permits] at hpermits
  obtain ⟨-, hwaiting, hany⟩ := hpermits
  have hphase := h.waits hwaiting
  have hcalls : r.executor.calls = true := by simp [Executor.calls, hphase]
  obtain ⟨entry, result, rest, hget⟩ : ∃ entry result rest,
      r.system.taken[i]? = some ⟨entry, result :: rest⟩ := by
    cases hget : r.system.taken[i]? with
    | none => simp [hget] at hany
    | some t =>
        obtain ⟨entry, posted⟩ := t
        cases posted with
        | nil => simp [hget] at hany
        | cons result rest => exact ⟨entry, result, rest, rfl⟩
  have hhandled := handled_of_exec hbooks hget hexec
  have hkeeps : system.occupant = r.system.occupant ∧ system.born = r.system.born ∧
      system.waiting = r.system.waiting := by
    simp only [System.exec, hget] at hexec
    obtain ⟨ran, -, hback⟩ := bind_eq_ok hexec
    rw [← Except.ok.inj hback]
    exact ⟨rfl, rfl, rfl⟩
  obtain ⟨hoccupant, hborn, hsame⟩ := hkeeps
  have hborrow : ∀ id, .wake id ∈ effects r.system i → id ∈ r.executor.wakers := by
    intro id hid
    cases hhandled with
    | ignored howner heffects hset => simp [heffects] at hid
    | live key pending waker howner hseat hbox hwaker heffects hset =>
        rw [heffects] at hid
        obtain rfl := Effect.wake.inj (List.mem_singleton.mp hid)
        exact h.waker_mem hwaker
    | cancelled key cancel howner hseat hbox heffects hset => simp [heffects] at hid
  obtain ⟨hwoken, hwakers, hquiet, hqueued⟩ := wakes_spec h.executor hcalls hborrow
  have hinv : Inv op { r with executor := wakes r.executor (effects r.system i) } := by
    refine ⟨hwoken, h.system, fun hwait => hquiet.phase.trans (h.waits hwait),
      fun hwait => hquiet.isDropping.trans (h.still (hquiet.phase ▸ hwait)), ?_, h.holds, ?_,
      h.asked⟩
    · rw [hwakers]
      exact h.wakers
    · intro j g hg
      obtain ⟨hlt, hfuture⟩ := h.owners j g hg
      refine ⟨hquiet.born.symm ▸ hlt, fun hheld => ?_⟩
      rw [hquiet.future, hquiet.stage]
      exact hfuture hheld
  have hcall := hinv.call (seatOf r.system i) (r.asked - 1) r.held hreach hsame
  have hcalls' : (wakes r.executor (effects r.system i)).calls = true := by
    rw [hquiet.calls, hcalls]
  have hasked : r.asked - 1 ≤ system.owed.length := by
    have hle := owed_length_of_handle hexec
    have hasked := h.asked
    omega
  have howners : ∀ (j : Nat) (g : Held O), r.held[j]? = some g → ∃ (k : Nat) (g' : Held O),
      r.held[k]? = some g' ∧ g.owner = g'.owner ∧ (g.dropped = false → g'.dropped = false) :=
    fun j g hg => ⟨j, g, hg, rfl, id⟩
  suffices hparts : Inv op { (called { r with
        executor := wakes r.executor (effects r.system i) } system (seatOf r.system i)) with
        held := r.held, asked := r.asked - 1 } ∧
      Undisturbed (wakes r.executor (effects r.system i)) (called { r with
        executor := wakes r.executor (effects r.system i) } system
          (seatOf r.system i)).executor by
    refine ⟨⟨entry, result, rest, hget, hhandled⟩, rfl, hoccupant, hsame, ?_, hparts.1,
      hquiet.trans hparts.2⟩
    exact fun id hid => hparts.2.queue id (hqueued id hid)
  cases hhandled with
  | ignored howner heffects hset =>
      refine hcall ?_ ?_ ?_ howners hasked
      · rw [hset]
        exact ⟨hcalls', fun _ _ => Or.inl rfl, fun id hid hno => by simp [hid] at hno,
          fun id hid hno => by simp [hid] at hno⟩
      · rw [hset]
      · rw [hset, hoccupant, hborn]
        exact h.holds
  | live key pending waker howner hseat hbox hwaker heffects hset =>
      obtain ⟨j, g, key', hg, hkey, hslot⟩ := h.holds.covered _ _ _ hbox
      obtain rfl := Key.asUsize_inj.mp hslot
      have hannounced : Announced (pending ++ [result]) result.hasMore := by
        obtain ⟨pending', more', hbox', hannounced, -⟩ := h.held_live hg hkey
        obtain ⟨rfl, rfl⟩ := Mailbox.live.inj (Option.some.inj (hbox'.symm.trans hbox))
        exact hannounced.snoc result
      rw [hseat] at hcall ⊢
      refine hcall ?_ hset.census ?_ howners hasked
      · refine ⟨hcalls', fun _ _ => hset.kept, ?_, ?_⟩
        · intro id _ hasleep
          simp [hwaker] at hasleep
        · intro id hid _
          rw [hwaker] at hid
          obtain rfl := Option.some.inj hid
          exact List.mem_append_left _ (hqueued waker (by simp [heffects]))
      · rw [hoccupant, hborn]
        exact h.holds.notify hg hkey hset hannounced
  | cancelled key cancel howner hseat hbox heffects hset =>
      have hasleep : r.system.ring.completions.waker key.asUsize = none := by
        cases hwaker : r.system.ring.completions.waker key.asUsize with
        | none => rfl
        | some waker =>
            obtain ⟨pending, more, hlive⟩ := CompletionSet.live_of_waker hwaker
            simp [hbox] at hlive
      have hasleep' : system.ring.completions.waker key.asUsize = none := by
        rcases hset.kept with hkept | hkept
        · rw [hkept, hasleep]
        · exact hkept
      rw [hseat] at hcall ⊢
      refine hcall ?_ hset.census ?_ howners hasked
      · exact ⟨hcalls', fun id hid => by simp [hasleep] at hid,
          fun id hid => by simp [hasleep'] at hid, fun id hid => by simp [hasleep] at hid⟩
      · rw [hoccupant, hborn]
        exact h.holds.consume hbox hset.toUpdates

end Inel.Runtime
