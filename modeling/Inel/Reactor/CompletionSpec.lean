import Inel.Reactor.Mailbox

/-!
# The calls of the completion set

One statement for each call and each kind of mailbox it can meet. Callers use
these and never look into the slab or the queues.
-/

namespace Inel.Reactor.CompletionSet

open SlotTable NumberPool

variable {W C : Type} {set : CompletionSet W C}

/-! ## Side conditions shared by the calls -/

theorem held_of_get {slot : Nat} {completion : Completion W C}
    (hget : set.slab.get slot = some completion) : set.held slot = completion.held := by
  simp [held, hget]

theorem handle_lt {slot : Nat} {waker : W} {handle : QueueHandle} {more : Bool} (hwf : set.Wf)
    (hget : set.slab.get slot = some (.multiple waker handle more)) :
    handle.index < set.queues.queues.length :=
  hwf.balanced.held_lt slot handle.index (held_of_get hget)

theorem handle_ne {slot other : Nat} {waker : W} {handle handle' : QueueHandle} {more : Bool}
    (hwf : set.Wf) (hget : set.slab.get slot = some (.multiple waker handle more))
    (hne : other ≠ slot) (hheld : set.held other = some handle'.index) :
    handle'.index ≠ handle.index := by
  intro heq
  rw [heq] at hheld
  exact hne (hwf.balanced.held_inj other slot handle.index hheld (held_of_get hget))

theorem unused_ne {slot : Nat} {waker : W} {handle handle' : QueueHandle} {more : Bool}
    (hwf : set.Wf) (hget : set.slab.get slot = some (.multiple waker handle more))
    (hunused : handle' ∈ set.queues.unused) : handle'.index ≠ handle.index := by
  intro heq
  have hmem : handle.index ∈ set.queues.unused.map (·.index) :=
    List.mem_map.mpr ⟨handle', hunused, heq⟩
  exact hwf.balanced.disjoint handle.index hmem slot (held_of_get hget)

theorem updates_plain {slot : Nat} {old : Completion W C} (new : Completion W C) (hwf : set.Wf)
    (hget : set.slab.get slot = some old) (hold : old.held = none) (hnew : new.held = none)
    (hwaker : ∀ pending, new.mailbox set.queues = some (.live pending true) →
      new.waker? = old.waker?) :
    Updates set (set.store slot new set.queues) slot (new.mailbox set.queues) := by
  refine updates_store hwf hget ?_ hwf.unused_empty (fun _ _ _ _ => rfl) ?_ hwaker
  · have hsame : Function.update set.held slot new.held = set.held := by
      rw [hnew, ← hold, ← held_of_get hget, Function.update_eq_self]
    rw [hsame]
    exact hwf.balanced
  · intro waker handle heq
    subst heq
    simp [Completion.held] at hnew

theorem updates_queue {slot : Nat} {waker : W} {handle : QueueHandle} {more : Bool}
    (more' : Bool) (hwf : set.Wf) (hget : set.slab.get slot = some (.multiple waker handle more))
    (queue : List RingResult) (hqueue : more' = false → queue ≠ []) :
    Updates set (set.store slot (.multiple waker handle more') (set.queues.set handle queue)) slot
      (some (.live queue more')) := by
  have hlt := handle_lt hwf hget
  have hcontents := ResultQueues.contents_set queue hlt
  have hbox : (Completion.multiple waker handle more' : Completion W C).mailbox
      (set.queues.set handle queue) = some (.live queue more') := by
    simp [Completion.mailbox, hcontents]
  rw [← hbox]
  refine updates_store hwf hget ?_ ?_ ?_ ?_ ?_
  · have hsame : Function.update set.held slot
        (Completion.multiple waker handle more' : Completion W C).held = set.held := by
      rw [show (Completion.multiple waker handle more' : Completion W C).held = set.held slot from
        (held_of_get hget).symm, Function.update_eq_self]
    rw [hsame, ResultQueues.length_set]
    exact hwf.balanced
  · intro handle' hunused
    rw [hcontents, if_neg (unused_ne hwf hget hunused)]
    exact hwf.unused_empty handle' hunused
  · intro other handle' hne hheld
    rw [hcontents, if_neg (handle_ne hwf hget hne hheld)]
  · intro waker' handle' heq
    obtain ⟨_, rfl, rfl⟩ := Completion.multiple.inj heq
    rw [hcontents, if_pos rfl]
    exact hqueue rfl
  · exact fun _ _ => rfl

theorem updates_release {slot : Nat} {waker : W} {handle : QueueHandle} {more : Bool}
    (new : Completion W C) (queues : ResultQueues) (hwf : set.Wf)
    (hget : set.slab.get slot = some (.multiple waker handle more)) (hnew : new.held = none)
    (hlive : ∀ pending, new.mailbox queues ≠ some (.live pending true))
    (hqueues : queues = set.queues.returned handle) :
    Updates set (set.store slot new queues) slot (new.mailbox queues) := by
  have hlt := handle_lt hwf hget
  have hcontents := ResultQueues.contents_returned hlt
  subst hqueues
  refine updates_store hwf hget ?_ ?_ ?_ ?_ ?_
  · rw [hnew]
    have hgive := hwf.balanced.give (held_of_get hget)
    simpa [ResultQueues.returned] using hgive
  · intro handle' hunused
    rcases List.mem_cons.mp hunused with rfl | hunused
    · rw [hcontents, if_pos rfl]
    · rw [hcontents, if_neg (unused_ne hwf hget hunused)]
      exact hwf.unused_empty handle' hunused
  · intro other handle' hne hheld
    rw [hcontents, if_neg (handle_ne hwf hget hne hheld)]
  · intro waker' handle' heq
    subst heq
    simp [Completion.held] at hnew
  · exact fun pending hbox => absurd hbox (hlive pending)

/-- The handle taken from the pool is in range, held by nobody and empty, and
the pool accounts for it once a slot without a queue holds it. -/
theorem handle_spec {slot : Nat} {waker : W} (hwf : set.Wf)
    (hget : set.slab.get slot = some (.vacant waker)) :
    set.queues.handle.1.index < set.queues.handle.2.queues.length ∧
      (∀ other n, set.held other = some n → n ≠ set.queues.handle.1.index) ∧
      set.queues.contents set.queues.handle.1 = [] ∧
      set.queues.handle.2.unused ⊆ set.queues.unused ∧
      Balanced (set.queues.handle.2.unused.map (·.index)) set.queues.handle.2.queues.length
        (Function.update set.held slot (some set.queues.handle.1.index)) := by
  have hheld : set.held slot = none := held_of_get hget
  have hbal := hwf.balanced
  cases hunused : set.queues.unused with
  | cons handle rest =>
      have hpair : set.queues.handle = (handle, { set.queues with unused := rest }) := by
        simp [ResultQueues.handle, hunused]
      rw [hunused, List.map_cons] at hbal
      rw [hpair]
      refine ⟨hbal.stock_lt handle.index List.mem_cons_self, ?_,
        hwf.unused_empty handle (by simp [hunused]), by simp, hbal.take hheld⟩
      intro other n hother heq
      exact hbal.disjoint handle.index List.mem_cons_self other (heq ▸ hother)
  | nil =>
      rw [hunused, List.map_nil] at hbal
      -- every queue is held, so the slots outnumber the queues and the index fits
      have hholders : ∀ j n, set.held j = some n → j < set.slab.slots.length := by
        intro j n hj
        cases hj' : set.slab.get j with
        | none => simp [held, hj'] at hj
        | some _ => exact Slab.lt_length_of_get hj'
      have hmark := hbal.mark_lt hholders (Slab.lt_length_of_get hget) hheld
      have hindex : (⟨.ofNat set.queues.queues.length⟩ : QueueHandle).index =
          set.queues.queues.length := by
        have hle := hwf.slots_le
        simp only [QueueHandle.index, UInt32.toNat_ofNat']
        omega
      have hpair : set.queues.handle = (⟨.ofNat set.queues.queues.length⟩,
          { set.queues with queues := set.queues.queues ++ [[]] }) := by
        simp [ResultQueues.handle, hunused]
      rw [hpair]
      simp only [hindex, hunused, List.map_nil, List.length_append, List.length_singleton]
      refine ⟨by omega, ?_, ?_, by simp, hbal.grow hheld⟩
      · intro other n hother heq
        have hlt := hbal.held_lt other n hother
        omega
      · simp [ResultQueues.contents, hindex]

/-- A slot takes a queue from the pool for its first result of several. -/
theorem updates_acquire {slot : Nat} {waker : W} (result : RingResult) (hwf : set.Wf)
    (hget : set.slab.get slot = some (.vacant waker)) :
    ∃ queues, set.queues.handle.2.pushBack set.queues.handle.1 result = .ok queues ∧
      Updates set (set.store slot (.multiple waker set.queues.handle.1 true) queues) slot
        (some (.live [result] true)) := by
  obtain ⟨hlt, hfresh, hempty, hsub, hbalanced⟩ := handle_spec hwf hget
  have hfirst : set.queues.handle.2.contents set.queues.handle.1 ++ [result] = [result] := by
    rw [ResultQueues.contents_handle, hempty, List.nil_append]
  have hpush := ResultQueues.pushBack_of_lt result hlt
  have hcontents := ResultQueues.contents_set [result] hlt
  rw [hfirst] at hpush
  refine ⟨_, hpush, ?_⟩
  have hbox : (Completion.multiple waker set.queues.handle.1 true : Completion W C).mailbox
      (set.queues.handle.2.set set.queues.handle.1 [result]) = some (.live [result] true) := by
    simp [Completion.mailbox, hcontents]
  rw [← hbox]
  refine updates_store hwf hget ?_ ?_ ?_ ?_ ?_
  · simpa [Completion.held] using hbalanced
  · intro handle' hunused
    have hne : handle'.index ≠ set.queues.handle.1.index := by
      intro heq
      refine hbalanced.disjoint handle'.index (List.mem_map.mpr ⟨handle', hunused, rfl⟩) slot ?_
      simp [heq]
    rw [hcontents, if_neg hne, ResultQueues.contents_handle]
    exact hwf.unused_empty handle' (hsub hunused)
  · intro other handle' _ hother
    rw [hcontents, if_neg (hfresh other _ hother), ResultQueues.contents_handle]
  · intro waker' handle' heq
    simp at heq
  · exact fun _ _ => rfl

/-! ## The calls -/

variable {key : Key} {pending : List RingResult} {more : Bool}

/-- The key of an index that fits 32 bits is that index. -/
theorem insert_spec {slot : Nat} (hwf : set.Wf) (hadmits : set.slab.admits slot = true)
    (hfits : slot < 2 ^ 32) (waker : W) :
    ((set.insert slot waker).1.asUsize = slot) ∧ (set.insert slot waker).2.Wf ∧
      (set.insert slot waker).2.mailbox slot = some (.live [] true) ∧
      (set.insert slot waker).2.waker slot = some waker ∧
      ∀ other, other ≠ slot →
        (set.insert slot waker).2.mailbox other = set.mailbox other ∧
        (set.insert slot waker).2.waker other = set.waker other := by
  have hget := Slab.get_insert hadmits (Completion.vacant waker : Completion W C)
  have hheld : (set.insert slot waker).2.held = set.held := by
    funext other
    by_cases heq : other = slot
    · subst heq
      simp [held, insert, hget, Slab.get_of_admits hadmits, Completion.new, Completion.held]
    · simp [held, insert, hget, heq, Completion.new]
  refine ⟨Key.asUsize_fromUsize_of_lt hfits, ⟨?_, ?_, ?_, hwf.unused_empty, ?_⟩, ?_, ?_, ?_⟩
  · have hle := hwf.slots_le
    simp only [insert, Slab.length_insert hadmits]
    omega
  · intro other
    simp only [insert, Completion.new, hget]
    split
    · simp
    · exact hwf.unfinished other
  · rw [hheld]
    exact hwf.balanced
  · intro other waker' handle hother
    simp only [insert, Completion.new, hget] at hother
    split at hother
    · simp at hother
    · exact hwf.pending other waker' handle hother
  · simp [mailbox, insert, hget, Completion.new, Completion.mailbox]
  · simp [CompletionSet.waker, insert, hget, Completion.new, Completion.waker?]
  · intro other hne
    simp [mailbox, CompletionSet.waker, insert, hget, hne, Completion.new]

/-- A queue takes a result whether or not its last one was announced. -/
theorem notify_queued {waker : W} {handle : QueueHandle} (hwf : set.Wf)
    (hget : set.slab.get key.asUsize = some (.multiple waker handle more)) (result : RingResult) :
    ∃ set', set.notify key result = .ok ⟨(), set', [.wake waker]⟩ ∧
      Updates set set' key.asUsize
        (some (.live (set.queues.contents handle ++ [result]) result.hasMore)) := by
  have hupd := updates_queue result.hasMore hwf hget (set.queues.contents handle ++ [result])
    (by simp)
  refine ⟨_, withCompletion_of_get hget ?_, hupd⟩
  simp [Completion.tryNotify, ResultQueues.pushBack_of_lt result (handle_lt hwf hget), bind,
    Except.bind, pure, Except.pure]

/-- A notification wakes the waker kept with the mailbox and queues the result. -/
theorem notify_live (hwf : set.Wf) (hbox : set.mailbox key.asUsize = some (.live pending true))
    (result : RingResult) :
    ∃ waker set', set.waker key.asUsize = some waker ∧
      set.notify key result = .ok ⟨(), set', [.wake waker]⟩ ∧
      Updates set set' key.asUsize (some (.live (pending ++ [result]) result.hasMore)) := by
  rcases mailbox_live_cases hbox with ⟨waker, hget, rfl, -⟩ | ⟨_, _, _, hmore⟩ |
    ⟨waker, handle, hget, rfl⟩
  · have hwaker : set.waker key.asUsize = some waker := by
      simp [CompletionSet.waker, hget, Completion.waker?]
    cases hmore : result.hasMore with
    | true =>
        obtain ⟨queues, hpush, hupd⟩ := updates_acquire result hwf hget
        refine ⟨waker, _, hwaker, withCompletion_of_get hget ?_, hupd⟩
        simp [Completion.tryNotify, hmore, hpush, bind, Except.bind, pure, Except.pure]
    | false =>
        have hupd := updates_plain (.single result) hwf hget rfl rfl
          (by simp [Completion.mailbox])
        refine ⟨waker, _, hwaker, withCompletion_of_get hget ?_, hupd⟩
        simp [Completion.tryNotify, hmore]
  · simp at hmore
  · have hwaker : set.waker key.asUsize = some waker := by
      simp [CompletionSet.waker, hget, Completion.waker?]
    obtain ⟨set', hok, hupd⟩ := notify_queued hwf hget result
    exact ⟨waker, set', hwaker, hok, hupd⟩

theorem notify_single {waker : W} {result : RingResult}
    (hget : set.slab.get key.asUsize = some (.vacant waker)) (hmore : result.hasMore = false) :
    set.notify key result =
      .ok ⟨(), set.store key.asUsize (.single result) set.queues, [.wake waker]⟩ :=
  withCompletion_of_get hget (by simp [Completion.tryNotify, hmore])

/-- A notification of a cancelled key runs both callbacks and frees the slot,
also when more results are announced. -/
theorem notify_cancelled {cancel : C} (hwf : set.Wf)
    (hbox : set.mailbox key.asUsize = some (.cancelled cancel)) (result : RingResult) :
    ∃ set', set.notify key result =
        .ok ⟨(), set', [.consume cancel result, .dropRaw cancel]⟩ ∧
      Updates set set' key.asUsize none := by
  have hget := get_of_mailbox_cancelled hbox
  have hupd := updates_plain .finished hwf hget rfl rfl (by simp [Completion.mailbox])
  exact ⟨_, withCompletion_of_get hget rfl, hupd⟩

/-- Taking a result takes the oldest one. -/
theorem result_live (hwf : set.Wf) (hbox : set.mailbox key.asUsize = some (.live pending more)) :
    ∃ set', set.result key = .ok ⟨pending.head?, set', []⟩ ∧
      Updates set set' key.asUsize (Mailbox.remaining pending.tail more) := by
  rcases mailbox_live_cases hbox with ⟨waker, hget, rfl, rfl⟩ | ⟨result, hget, rfl, rfl⟩ |
    ⟨waker, handle, hget, rfl⟩
  · have hupd := updates_plain (.vacant waker) hwf hget rfl rfl (fun _ _ => rfl)
    exact ⟨_, withCompletion_of_get hget rfl, hupd⟩
  · have hupd := updates_plain .finished hwf hget rfl rfl (by simp [Completion.mailbox])
    exact ⟨_, withCompletion_of_get hget rfl, hupd⟩
  · have hlt := handle_lt hwf hget
    have hlt' : handle.index <
        (set.queues.set handle (set.queues.contents handle).tail).queues.length := by
      simpa using hlt
    have htail : (set.queues.set handle (set.queues.contents handle).tail).contents handle =
        (set.queues.contents handle).tail := by
      rw [ResultQueues.contents_set _ hlt, if_pos rfl]
    by_cases hdone : (set.queues.contents handle).tail.isEmpty && !more
    · have hqueues : (set.queues.set handle (set.queues.contents handle).tail).returned handle =
          set.queues.returned handle := by
        simp [ResultQueues.returned, ResultQueues.set]
      have hupd := updates_release .finished
        ((set.queues.set handle (set.queues.contents handle).tail).returned handle) hwf hget rfl
        (by simp [Completion.mailbox]) hqueues
      rw [show (Mailbox.remaining (set.queues.contents handle).tail more : Option (Mailbox C)) =
        none from if_pos hdone]
      refine ⟨_, withCompletion_of_get hget ?_, hupd⟩
      simp only [Completion.takeResult, bind, Except.bind, ResultQueues.get_of_lt hlt,
        ResultQueues.get_of_lt hlt', htail, hdone, if_true, ResultQueues.release_of_lt hlt',
        pure, Except.pure]
    · have hqueue : more = false → (set.queues.contents handle).tail ≠ [] := by
        intro hmore heq
        exact hdone (by simp [heq, hmore])
      have hupd := updates_queue more hwf hget _ hqueue
      rw [show (Mailbox.remaining (set.queues.contents handle).tail more : Option (Mailbox C)) =
        some (.live (set.queues.contents handle).tail more) from if_neg hdone]
      refine ⟨_, withCompletion_of_get hget ?_, hupd⟩
      simp only [Completion.takeResult, bind, Except.bind, ResultQueues.get_of_lt hlt,
        ResultQueues.get_of_lt hlt', htail, hdone, if_false, Bool.false_eq_true, pure, Except.pure]

theorem result_cancelled {cancel : C} (hwf : set.Wf)
    (hbox : set.mailbox key.asUsize = some (.cancelled cancel)) :
    ∃ set', set.result key = .ok ⟨none, set', []⟩ ∧
      Updates set set' key.asUsize (some (.cancelled cancel)) := by
  have hget := get_of_mailbox_cancelled hbox
  have hupd := updates_plain (.cancelled cancel) hwf hget rfl rfl (fun _ _ => rfl)
  exact ⟨_, withCompletion_of_get hget rfl, hupd⟩

/-- Cancelling consumes what is pending; the cancellation stays exactly when
results can still follow, and is released otherwise. -/
theorem cancel_live (hwf : set.Wf) (hbox : set.mailbox key.asUsize = some (.live pending more))
    (cancel : C) :
    ∃ set', set.cancel key cancel =
        .ok ⟨more, set', pending.map (.consume cancel) ++ if more then [] else [.dropRaw cancel]⟩ ∧
      Updates set set' key.asUsize (Mailbox.afterCancel cancel more) := by
  rcases mailbox_live_cases hbox with ⟨waker, hget, rfl, rfl⟩ | ⟨result, hget, rfl, rfl⟩ |
    ⟨waker, handle, hget, rfl⟩
  · have hupd := updates_plain (.cancelled cancel) hwf hget rfl rfl
      (by simp [Completion.mailbox])
    exact ⟨_, withCompletion_of_get hget rfl, hupd⟩
  · have hupd := updates_plain .finished hwf hget rfl rfl (by simp [Completion.mailbox])
    exact ⟨_, withCompletion_of_get hget rfl, hupd⟩
  · have hlt := handle_lt hwf hget
    cases more with
    | true =>
        have hupd := updates_release (.cancelled cancel) _ hwf hget rfl
          (by simp [Completion.mailbox]) rfl
        refine ⟨_, withCompletion_of_get hget ?_, hupd⟩
        simp [Completion.tryCancel, ResultQueues.get_of_lt hlt, ResultQueues.release_of_lt hlt,
          bind, Except.bind, pure, Except.pure]
    | false =>
        have hupd := updates_release .finished _ hwf hget rfl
          (by simp [Completion.mailbox]) rfl
        refine ⟨_, withCompletion_of_get hget ?_, hupd⟩
        simp [Completion.tryCancel, ResultQueues.get_of_lt hlt, ResultQueues.release_of_lt hlt,
          bind, Except.bind, pure, Except.pure]

/-! ## Calls on a vacant key -/

theorem notify_vacant (hwf : set.Wf) (hbox : set.mailbox key.asUsize = none)
    (result : RingResult) : set.notify key result = .error (.expect "unexpected key") :=
  withCompletion_of_vacant (hwf.mailbox_eq_none_iff.mp hbox)

theorem result_vacant (hwf : set.Wf) (hbox : set.mailbox key.asUsize = none) :
    set.result key = .error (.expect "unexpected key") :=
  withCompletion_of_vacant (hwf.mailbox_eq_none_iff.mp hbox)

theorem cancel_vacant (hwf : set.Wf) (hbox : set.mailbox key.asUsize = none) (cancel : C) :
    set.cancel key cancel = .error (.expect "unexpected key") :=
  withCompletion_of_vacant (hwf.mailbox_eq_none_iff.mp hbox)

theorem cancel_cancelled {cancel cancel' : C}
    (hbox : set.mailbox key.asUsize = some (.cancelled cancel)) :
    set.cancel key cancel' = .error (.unreachable "Completion already cancelled") :=
  withCompletion_of_error (get_of_mailbox_cancelled hbox) rfl

/-! ## Any call that returns -/

theorem cancel_updates {cancel : C} {ran : Ran Bool (CompletionSet W C) W C} (hwf : set.Wf)
    (hok : set.cancel key cancel = .ok ran) : ∃ box, Updates set ran.state key.asUsize box := by
  cases hbox : set.mailbox key.asUsize with
  | none => simp [cancel_vacant hwf hbox] at hok
  | some box =>
      cases box with
      | live pending more =>
          obtain ⟨set', hok', hupd⟩ := cancel_live hwf hbox cancel
          obtain rfl := Except.ok.inj (hok'.symm.trans hok)
          exact ⟨_, hupd⟩
      | cancelled stored => simp [cancel_cancelled hbox] at hok

theorem result_updates {ran : Ran (Option RingResult) (CompletionSet W C) W C} (hwf : set.Wf)
    (hok : set.result key = .ok ran) : ∃ box, Updates set ran.state key.asUsize box := by
  cases hbox : set.mailbox key.asUsize with
  | none => simp [result_vacant hwf hbox] at hok
  | some box =>
      cases box with
      | live pending more =>
          obtain ⟨set', hok', hupd⟩ := result_live hwf hbox
          obtain rfl := Except.ok.inj (hok'.symm.trans hok)
          exact ⟨_, hupd⟩
      | cancelled stored =>
          obtain ⟨set', hok', hupd⟩ := result_cancelled hwf hbox
          obtain rfl := Except.ok.inj (hok'.symm.trans hok)
          exact ⟨_, hupd⟩

theorem notify_updates {result : RingResult} {ran : Ran Unit (CompletionSet W C) W C}
    (hwf : set.Wf) (hok : set.notify key result = .ok ran) :
    ∃ box, Updates set ran.state key.asUsize box := by
  cases hbox : set.mailbox key.asUsize with
  | none => simp [notify_vacant hwf hbox] at hok
  | some box =>
      cases box with
      | cancelled stored =>
          obtain ⟨set', hok', hupd⟩ := notify_cancelled hwf hbox result
          obtain rfl := Except.ok.inj (hok'.symm.trans hok)
          exact ⟨_, hupd⟩
      | live pending more =>
          cases more with
          | true =>
              obtain ⟨_, set', -, hok', hupd⟩ := notify_live hwf hbox result
              obtain rfl := Except.ok.inj (hok'.symm.trans hok)
              exact ⟨_, hupd⟩
          | false =>
              -- past its last result: an inline slot refuses, a queue takes one more
              rcases mailbox_live_cases hbox with ⟨_, _, _, hmore⟩ | ⟨_, hget, _, _⟩ |
                ⟨waker, handle, hget, rfl⟩
              · simp at hmore
              · have herr : set.notify key result =
                    .error (.unreachable "Completion already finished") :=
                  withCompletion_of_error hget rfl
                simp [herr] at hok
              · obtain ⟨set', hok', hupd⟩ := notify_queued hwf hget result
                obtain rfl := Except.ok.inj (hok'.symm.trans hok)
                exact ⟨_, hupd⟩

end Inel.Reactor.CompletionSet
