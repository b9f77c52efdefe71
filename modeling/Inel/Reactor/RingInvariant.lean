import Inel.Reactor.Bookkeeping

/-!
# The invariant of ring and kernel

One lemma for each command. Together they say that no command of a calm run ends
in a state where a completion could go astray.
-/

namespace Inel.Reactor.System

open SlotTable Transitions

variable {W C : Type} {s s' : System W C}

structure Inv (s : System W C) : Prop where
  wf : s.ring.completions.Wf
  keyed : Keyed s.ring.completions.mailbox s.occupant s.born s.owed
  tally : Tally s.ring.active s.ring.detached s.owed
  cancelling : Cancelling s.ring.completions.mailbox s.occupant s.ring.queue s.ring.canceled
  withdrawn : ∀ slot cancel, s.ring.completions.mailbox slot = some (.cancelled cancel) →
    s.occupant slot ∈ s.withdrawn
  /-- Only an entry's last result says that no more follow. -/
  lastOnly : ∀ t ∈ s.taken, ∀ result ∈ t.posted.dropLast, result.hasMore = true
  /-- What announces more belongs to a submission that was not cancelled. -/
  moreLive : ∀ t ∈ s.taken, ∀ result ∈ t.posted, result.hasMore = true →
    ∃ id, t.entry.request.owner = some id ∧ id ∉ s.withdrawn
  flushed : s.waiting = true → s.ring.queue = []
  truthful : ∀ event ∈ s.events, event.Truthful

theorem start_inv (options : RingOptions) (entries : Nat) (occupant : Nat → SubmissionId) :
    Inv (⟨Ring.build options entries, occupant, 0, [], [], false, []⟩ : System W C) where
  wf := CompletionSet.withCapacity_wf options.submissions.toNat
  keyed := by
    refine ⟨by simp [owed, Ring.build], by simp [owed, Ring.build], ?_, ?_, ?_, ?_⟩
    · simp [owed, Ring.build, owners]
    · simp [Ring.build]
    · simp [Ring.build]
    · simp [Ring.build]
  tally := ⟨by simp [owed, Ring.build], rfl, rfl⟩
  cancelling := .empty
  withdrawn := by simp [Ring.build]
  lastOnly := by simp
  moreLive := by simp
  flushed := by simp
  truthful := by simp

/-! ## Calls between waits -/

theorem owed_push (s : System W C) (ring : Ring Request W C) {entry : Entry Request}
    (hqueue : ring.queue = s.ring.queue ++ [entry]) :
    (entry :: s.owed).Perm (ring.queue ++ s.taken.map (·.entry)) := by
  rw [hqueue, List.append_assoc]
  exact List.perm_middle.symm

theorem Inv.submit {slot : Nat} {waker : W} (h : s.Inv) (hidle : s.waiting = false)
    (hadmits : s.ring.completions.slab.admits slot = true)
    (hlen : s.ring.completions.slab.len < 2 ^ 32) (hroom : s.owed.length + 1 < 2 ^ 32)
    (hok : s.exec (.submit slot waker) = .ok s') : s'.Inv := by
  have hslot : slot < 2 ^ 32 := Slab.lt_of_admits hadmits h.wf.slots_le hlen
  obtain ⟨hkey, hwf, hhere, -, hothers⟩ :=
    CompletionSet.insert_spec h.wf hadmits hslot waker
  have hkey' : (Key.fromUsize slot).asUsize = slot := hkey
  have hvacant : s.ring.completions.mailbox slot = none :=
    h.wf.mailbox_eq_none_iff.mpr (Slab.get_of_admits hadmits)
  obtain ⟨⟨key, ring⟩, hsubmit, hret⟩ := bind_eq_ok hok
  obtain ⟨rfl, hring⟩ := Ring.submit_eq_ok hsubmit
  obtain rfl := Except.ok.inj hret
  have hbox : ∀ other, other ≠ (Key.fromUsize slot).asUsize →
      ring.completions.mailbox other = s.ring.completions.mailbox other := by
    intro other hne
    rw [hkey'] at hne
    rw [hring]
    exact (hothers other hne).1
  have hkeep : ∀ other cancel, s.ring.completions.mailbox other = some (.cancelled cancel) →
      other ≠ slot := by
    intro other cancel hcancel heq
    subst heq
    simp [hvacant] at hcancel
  have hcancelled : ∀ other cancel,
      ring.completions.mailbox other = some (.cancelled cancel) → other ≠ slot := by
    intro other cancel hcancel heq
    subst heq
    rw [hring] at hcancel
    simp [hhere] at hcancel
  have hpush := owed_push s ring (by rw [hring])
  refine ⟨by rw [hring]; exact hwf, ?_, ?_, ?_, ?_, h.lastOnly, h.moreLive, ?_, h.truthful⟩
  · have hkeyed := h.keyed.push ring.completions.mailbox (Key.fromUsize slot)
      (.submission s.born) (by rw [hkey', hvacant]) hbox
      (by rw [hkey', hring]; simp [hhere, Mailbox.expects]) rfl
    rw [hkey'] at hkeyed
    exact hkeyed.perm hpush
  · have htally := h.tally.pushSubmission ⟨.submission s.born,
      (Key.fromUsize slot).asU64⟩ hroom rfl
    simp only [hring] at hpush ⊢
    exact htally.perm hpush
  · simp only [hring]
    refine (h.cancelling.update fun other cancel hcancel => ?_).push rfl
    have hne := hkeep other cancel hcancel
    exact ⟨by rw [(hothers other hne).1, hcancel], Function.update_of_ne hne _ _⟩
  · intro other cancel hcancel
    have hne := hcancelled other cancel hcancel
    rw [hbox other (by rwa [hkey'])] at hcancel
    dsimp only
    rw [Function.update_of_ne hne]
    exact h.withdrawn other cancel hcancel
  · intro hwaiting
    simp [hidle] at hwaiting

theorem Inv.submitDetached (h : s.Inv) (hidle : s.waiting = false)
    (hroom : s.owed.length + 1 < 2 ^ 32) (hok : s.exec .submitDetached = .ok s') : s'.Inv := by
  obtain ⟨ring, hsubmit, hret⟩ := bind_eq_ok hok
  have hring := Ring.submitDetached_eq_ok hsubmit
  obtain rfl := Except.ok.inj hret
  have hpush := owed_push s ring (by rw [hring])
  subst hring
  refine ⟨h.wf, ?_, ?_, h.cancelling.push rfl, h.withdrawn, h.lastOnly, h.moreLive, ?_,
    h.truthful⟩
  · exact (h.keyed.pushIgnored rfl).perm hpush
  · exact (h.tally.pushIgnored hroom rfl).perm hpush
  · intro hwaiting
    simp [hidle] at hwaiting

theorem Inv.touch {set : CompletionSet W C} {slot : Nat} {box : Option (Mailbox C)}
    (h : s.Inv) (withdrawn : List SubmissionId)
    (hocc : s.ring.completions.mailbox slot ≠ none)
    (hupd : s.ring.completions.Updates set slot box)
    (hexp : box.any Mailbox.expects =
      (s.ring.completions.mailbox slot).any Mailbox.expects)
    (hkeep : ∀ cancel, s.ring.completions.mailbox slot = some (.cancelled cancel) →
      box = some (.cancelled cancel))
    (hsub : s.withdrawn ⊆ withdrawn)
    (hnew : ∀ cancel, box = some (.cancelled cancel) → s.occupant slot ∈ withdrawn)
    (hmore : ∀ t ∈ s.taken, ∀ result ∈ t.posted, result.hasMore = true →
      ∃ id, t.entry.request.owner = some id ∧ id ∉ withdrawn) :
    Inv { s with ring := { s.ring with completions := set }, withdrawn := withdrawn } := by
  refine ⟨hupd.wf, ?_, h.tally, ?_, ?_, h.lastOnly, hmore, h.flushed, h.truthful⟩
  · exact h.keyed.update hocc hupd.others (by rw [hupd.here, hexp])
  · refine h.cancelling.update fun other cancel hcancel => ⟨?_, rfl⟩
    by_cases heq : other = slot
    · subst heq
      rw [hupd.here, hkeep cancel hcancel]
    · rw [hupd.others other heq, hcancel]
  · intro other cancel hcancel
    by_cases heq : other = slot
    · subst heq
      exact hnew cancel (by rw [← hupd.here, hcancel])
    · refine hsub (h.withdrawn other cancel ?_)
      rw [← hupd.others other heq]
      exact hcancel

theorem Inv.checkResult {key : Key} (h : s.Inv) (hok : s.exec (.checkResult key) = .ok s') :
    s'.Inv := by
  obtain ⟨ran, hcheck, hret⟩ := bind_eq_ok hok
  obtain ⟨completions, hresult, hring⟩ := Ring.checkResult_eq_ok hcheck
  obtain rfl := Except.ok.inj hret
  rw [hring]
  cases hbox : s.ring.completions.mailbox key.asUsize with
  | none =>
      rw [CompletionSet.result_vacant h.wf hbox] at hresult
      simp at hresult
  | some box =>
      cases box with
      | live pending more =>
          obtain ⟨set, hset, hupd⟩ := CompletionSet.result_live h.wf hbox
          rw [hset] at hresult
          obtain ⟨-, rfl, -⟩ := Ran.mk.inj (Except.ok.inj hresult)
          refine h.touch s.withdrawn (by simp [hbox]) hupd ?_ (by simp [hbox])
            (List.Subset.refl _) ?_ h.moreLive
          · rw [hbox]
            cases more with
            | true => simp [Mailbox.expects]
            | false =>
                cases hdone : pending.tail.isEmpty <;>
                  simp [Mailbox.remaining, Mailbox.expects, hdone]
          · intro cancel hcancel
            unfold Mailbox.remaining at hcancel
            split at hcancel <;> simp at hcancel
      | cancelled cancel =>
          obtain ⟨set, hset, hupd⟩ := CompletionSet.result_cancelled h.wf hbox
          rw [hset] at hresult
          obtain ⟨-, rfl, -⟩ := Ran.mk.inj (Except.ok.inj hresult)
          exact h.touch s.withdrawn (by simp [hbox]) hupd (by rw [hbox])
            (fun _ => (hbox ▸ ·)) (List.Subset.refl _)
            (fun _ _ => h.withdrawn _ cancel hbox) h.moreLive

/-- A cancellation leaves nothing to read that announces more. -/
theorem Inv.cancel_moreLive {key : Key} (h : s.Inv)
    (hocc : s.ring.completions.mailbox key.asUsize ≠ none)
    (hcalm : ∀ t ∈ s.taken, t.entry.userData = key.asU64 →
      ∀ result ∈ t.posted, result.hasMore = false) :
    ∀ t ∈ s.taken, ∀ result ∈ t.posted, result.hasMore = true →
      ∃ id, t.entry.request.owner = some id ∧ id ∉ s.occupant key.asUsize :: s.withdrawn := by
  intro t ht result hresult hmore
  obtain ⟨id, howner, hlive⟩ := h.moreLive t ht result hresult hmore
  refine ⟨id, howner, ?_⟩
  rintro (_ | ⟨_, hmem⟩)
  · have hentry : t.entry ∈ s.owed := List.mem_append_right _ (List.mem_map_of_mem ht)
    have hdata := (h.keyed.key_of_owner hentry howner hocc rfl).1
    rw [hcalm t ht hdata result hresult] at hmore
    exact Bool.false_ne_true hmore
  · exact hlive hmem

theorem Inv.pushCancel {key : Key} {pending : List RingResult} {set : CompletionSet W C}
    {cancel : C} (h : s.Inv) (hidle : s.waiting = false) (hroom : s.owed.length + 1 < 2 ^ 32)
    (hbox : s.ring.completions.mailbox key.asUsize = some (.live pending true))
    (hupd : s.ring.completions.Updates set key.asUsize (some (.cancelled cancel)))
    (htouched : Inv { s with
      ring := { s.ring with completions := set },
      withdrawn := s.occupant key.asUsize :: s.withdrawn }) :
    Inv { s with
      ring := s.ring.cancelled (some (.asyncCancel (s.occupant key.asUsize) key)) true set,
      withdrawn := s.occupant key.asUsize :: s.withdrawn } := by
  have hcount := h.cancelling.length_le_owners h.keyed
  have hsplit := length_owners_add s.owed
  have hpush := owed_push s
    (s.ring.cancelled (some (.asyncCancel (s.occupant key.asUsize) key)) true set) rfl
  refine ⟨htouched.wf, ?_, ?_, ?_, htouched.withdrawn, h.lastOnly, htouched.moreLive, ?_,
    h.truthful⟩
  · exact (htouched.keyed.pushIgnored rfl).perm hpush
  · exact (h.tally.pushIgnored hroom rfl).perm hpush
  · exact h.cancelling.pushCancel h.keyed (by simp [hbox]) (by simp [hbox]) (by omega)
      hupd.others hupd.here
  · intro hwaiting
    simp [hidle] at hwaiting

theorem Inv.cancel {key : Key} {entry : Bool} {cancel : C} (h : s.Inv) (hidle : s.waiting = false)
    (hroom : entry = true → s.owed.length + 1 < 2 ^ 32)
    (hcalm : ∀ t ∈ s.taken, t.entry.userData = key.asU64 →
      ∀ result ∈ t.posted, result.hasMore = false)
    (hok : s.exec (.cancel key entry cancel) = .ok s') : s'.Inv := by
  obtain ⟨ran, hran, hret⟩ := bind_eq_ok hok
  obtain ⟨accepted, completions, hcancel, hring⟩ := Ring.cancel_eq_ok hran
  obtain rfl := Except.ok.inj hret
  rw [hring]
  cases hbox : s.ring.completions.mailbox key.asUsize with
  | none =>
      rw [CompletionSet.cancel_vacant h.wf hbox] at hcancel
      simp at hcancel
  | some box =>
      cases box with
      | cancelled other =>
          rw [CompletionSet.cancel_cancelled hbox] at hcancel
          simp at hcancel
      | live pending more =>
          obtain ⟨set, hset, hupd⟩ := CompletionSet.cancel_live h.wf hbox cancel
          rw [hset] at hcancel
          obtain ⟨rfl, rfl, -⟩ := Ran.mk.inj (Except.ok.inj hcancel)
          have htouched := h.touch (s.occupant key.asUsize :: s.withdrawn)
            (by simp [hbox]) hupd (by cases more <;> simp [hbox, Mailbox.afterCancel,
              Mailbox.expects]) (by simp [hbox]) (List.subset_cons_self _ _)
            (fun _ _ => List.mem_cons_self)
            (h.cancel_moreLive (by simp [hbox]) hcalm)
          cases more with
          | false => exact htouched
          | true =>
              cases entry with
              | false => exact htouched
              | true => exact h.pushCancel hidle (hroom rfl) hbox hupd htouched

/-! ## The wait -/

theorem Request.eq_of_owner {request : Request} {id : SubmissionId}
    (h : request.owner = some id) : request = .submission id := by
  cases request with
  | submission other => simpa [Request.owner] using h
  | detached => simp [Request.owner] at h
  | asyncCancel other target => simp [Request.owner] at h

theorem denotes_of_mailbox {key : Key} {box : Mailbox C}
    (hbox : s.ring.completions.mailbox key.asUsize = some box) :
    s.denotes key = some (s.occupant key.asUsize) := by
  unfold CompletionSet.mailbox at hbox
  cases hget : s.ring.completions.slab.get key.asUsize with
  | none => simp [hget] at hbox
  | some completion => simp [denotes, hget]

/-- Each cancellation the kernel takes finds its key unchanged and matches the
entry of no other submission. -/
theorem cancelEvents_truthful (h : s.Inv) (earlier queue : List (Entry Request))
    (hearlier : ∀ entry ∈ earlier, entry ∈ s.owed)
    (hqueue : ∀ entry ∈ queue, entry ∈ s.ring.queue) :
    ∀ event ∈ cancelEvents s.denotes earlier queue, event.Truthful := by
  induction queue generalizing earlier with
  | nil => simp [cancelEvents]
  | cons entry queue ih =>
      have hentry := hqueue entry List.mem_cons_self
      have hrest := ih (earlier ++ [entry]) (by
        intro other hmem
        rcases List.mem_append.mp hmem with hmem | hmem
        · exact hearlier other hmem
        · rw [List.mem_singleton.mp hmem]
          exact List.mem_append_left _ hentry)
        (fun other hmem => hqueue other (List.mem_cons_of_mem _ hmem))
      intro event hevent
      simp only [cancelEvents] at hevent
      split at hevent
      · next id target hrequest =>
          rcases List.mem_cons.mp hevent with rfl | hevent
          · obtain ⟨rfl, cancel, hbox⟩ := h.cancelling.target entry hentry id target hrequest
            refine ⟨denotes_of_mailbox hbox, fun request hmem => ?_⟩
            obtain ⟨other, hother, rfl⟩ := List.mem_map.mp hmem
            obtain ⟨hmem, hdata⟩ := List.mem_filter.mp hother
            exact Request.eq_of_owner
              (h.keyed.owner_of_key (hearlier other hmem) (by simpa using hdata)).1
          · exact hrest event hevent
      · exact hrest event hevent

theorem Inv.enter (h : s.Inv) (hok : s.exec .enter = .ok s') : s'.Inv := by
  cases hidle : s.ring.idle with
  | true =>
      have hnone : s.owed = [] := by
        refine h.tally.idle_iff.mp ?_
        simpa [Ring.idle] using hidle
      have hqueue : s.ring.queue = [] := (List.append_eq_nil_iff.mp hnone).1
      obtain rfl := Except.ok.inj ((exec_enter_idle s hidle).symm.trans hok)
      exact { h with flushed := fun _ => hqueue }
  | false =>
      obtain rfl := Except.ok.inj ((exec_enter s hidle).symm.trans hok)
      have howed : s.owed.Perm ([] ++ List.map Taken.entry
          (s.taken ++ s.ring.queue.map fun entry => ⟨entry, []⟩)) := by
        rw [List.nil_append, List.map_append, List.map_map]
        simpa [owed, Function.comp_def] using List.perm_append_comm
      refine ⟨h.wf, h.keyed.perm howed, h.tally.perm howed, .empty, h.withdrawn, ?_, ?_,
        fun _ => rfl, ?_⟩
      · intro t ht
        rcases List.mem_append.mp ht with ht | ht
        · exact h.lastOnly t ht
        · obtain ⟨entry, -, rfl⟩ := List.mem_map.mp ht
          simp
      · intro t ht
        rcases List.mem_append.mp ht with ht | ht
        · exact h.moreLive t ht
        · obtain ⟨entry, -, rfl⟩ := List.mem_map.mp ht
          simp
      · intro event hevent
        rcases List.mem_append.mp hevent with hevent | hevent
        · exact h.truthful event hevent
        · exact cancelEvents_truthful h _ _ (fun _ hmem => List.mem_append_right _ hmem)
            (fun _ hmem => hmem) event hevent

theorem map_entry_set {taken : List Taken} {i : Nat} {t t' : Taken} (hget : taken[i]? = some t)
    (hentry : t'.entry = t.entry) :
    (taken.set i t').map (·.entry) = taken.map (·.entry) := by
  obtain ⟨hlt, rfl⟩ := List.getElem?_eq_some_iff.mp hget
  have hlt' : i < (taken.map (·.entry)).length := by simpa using hlt
  have hsame := List.set_getElem_self hlt'
  rw [List.map_set, hentry]
  simpa using hsame

theorem Inv.post {i : Nat} {result : RingResult} (h : s.Inv)
    (hpermits : s.permits (.post i result) = true) (hcalm : s.ignoredOnce (.post i result) = true)
    (hok : s.exec (.post i result) = .ok s') : s'.Inv := by
  simp only [permits] at hpermits
  cases hget : s.taken[i]? with
  | none => simp [hget] at hpermits
  | some t =>
      have ht : t ∈ s.taken := List.mem_of_getElem? hget
      simp only [hget, Bool.and_eq_true, List.all_eq_true, Bool.or_eq_true, Bool.not_eq_true']
        at hpermits
      obtain ⟨hall, hcancelled⟩ := hpermits
      simp only [exec, hget] at hok
      obtain rfl := Except.ok.inj hok
      have howed : s.ring.queue ++ (s.taken.set i
          { t with posted := t.posted ++ [result] }).map (·.entry) = s.owed := by
        rw [map_entry_set hget (by rfl), owed]
      refine ⟨h.wf, ?_, ?_, h.cancelling, h.withdrawn, ?_, ?_, h.flushed, h.truthful⟩
      · exact h.keyed.perm (.of_eq howed.symm)
      · exact h.tally.perm (.of_eq howed.symm)
      · intro other hother
        rcases List.mem_or_eq_of_mem_set hother with hother | rfl
        · exact h.lastOnly other hother
        · rw [List.dropLast_concat]
          exact hall
      · intro other hother
        rcases List.mem_or_eq_of_mem_set hother with hother | rfl
        · exact h.moreLive other hother
        · intro posted hposted hmore
          rcases List.mem_append.mp hposted with hposted | hposted
          · exact h.moreLive t ht posted hposted hmore
          · obtain rfl := List.mem_singleton.mp hposted
            simp only [ignoredOnce, hget, hmore, Bool.not_true, Bool.false_or, Option.any_some,
              Option.isSome_iff_exists] at hcalm
            obtain ⟨id, howner⟩ := hcalm
            refine ⟨id, howner, ?_⟩
            simpa [hmore, howner] using hcancelled

/-- A completion that is read: whose it is, and what the ring makes of it. -/
theorem Inv.handleCompletion {t : Taken} {result : RingResult} (h : s.Inv) (ht : t ∈ s.taken)
    (hresult : result ∈ t.posted) :
    s.receiver t.entry.userData = t.entry.request.owner ∧
      ∃ completions effects active detached,
        s.ring.handleCompletion ⟨t.entry.userData, result⟩ =
          .ok ⟨(), { s.ring with
            completions := completions, active := active, detached := detached }, effects⟩ ∧
        completions.Wf ∧
        (∀ slot cancel, completions.mailbox slot = some (.cancelled cancel) →
          s.ring.completions.mailbox slot = some (.cancelled cancel)) ∧
        (result.hasMore = true → active = s.ring.active ∧ detached = s.ring.detached ∧
          Keyed completions.mailbox s.occupant s.born s.owed) ∧
        ∀ rest, s.owed.Perm (t.entry :: rest) → result.hasMore = false →
          Keyed completions.mailbox s.occupant s.born rest ∧ Tally active detached rest := by
  have hmem : t.entry ∈ s.owed := List.mem_append_right _ (List.mem_map_of_mem ht)
  cases howner : t.entry.request.owner with
  | none =>
      have hdata := h.keyed.ignored t.entry hmem howner
      have hlast : result.hasMore ≠ true := by
        intro hmore
        obtain ⟨id, hid, -⟩ := h.moreLive t ht result hresult hmore
        simp [howner] at hid
      refine ⟨by simp [receiver, hdata], s.ring.completions, [], s.ring.active,
        s.ring.detached - 1, by simp [Ring.handleCompletion, hdata], h.wf, fun _ _ => id,
        fun hmore => absurd hmore hlast, fun rest hperm _ => ⟨?_, ?_⟩⟩
      · exact (h.keyed.perm hperm).finishIgnored howner
      · exact (h.tally.perm hperm).finishIgnored howner
  | some id =>
      obtain ⟨key, hdata, rfl, hexp⟩ := h.keyed.submission t.entry hmem id howner
      have hignore : (key.asU64 == ignoreKey) = false := by simpa using key.asU64_ne_ignoreKey
      have hok : ∀ completions effects,
          s.ring.completions.notify key result = .ok ⟨(), completions, effects⟩ →
          s.ring.handleCompletion ⟨t.entry.userData, result⟩ = .ok ⟨(), { s.ring with
            active := if result.hasMore then s.ring.active else s.ring.active - 1,
            completions := completions }, effects⟩ := by
        intro completions effects hnotify
        simp [Ring.handleCompletion, hdata, hignore, hnotify, bind, Except.bind, pure,
          Except.pure]
      cases hbox : s.ring.completions.mailbox key.asUsize with
      | none => simp [hbox] at hexp
      | some box =>
          refine ⟨by simp [receiver, hdata, hignore, denotes_of_mailbox hbox], ?_⟩
          cases box with
          | live pending more =>
              obtain rfl : more = true := by simpa [hbox, Mailbox.expects] using hexp
              obtain ⟨waker, completions, -, hnotify, hupd⟩ :=
                CompletionSet.notify_live h.wf hbox result
              refine ⟨completions, _, _, _, hok completions _ hnotify, hupd.wf, ?_, ?_, ?_⟩
              · intro slot cancel hcancel
                by_cases heq : slot = key.asUsize
                · rw [heq, hupd.here] at hcancel
                  simp at hcancel
                · rwa [hupd.others slot heq] at hcancel
              · intro hmore
                refine ⟨by simp [hmore], rfl, h.keyed.update (by simp [hbox]) hupd.others ?_⟩
                simp [hupd.here, hbox, Mailbox.expects, hmore]
              · intro rest hperm hmore
                refine ⟨(h.keyed.perm hperm).finish hdata hupd.others ?_, ?_⟩
                · simp [hupd.here, Mailbox.expects, hmore]
                · simpa [hmore] using (h.tally.perm hperm).finishSubmission (by simp [howner])
          | cancelled cancel =>
              have hlast : result.hasMore ≠ true := by
                intro hmore
                obtain ⟨other, hother, hlive⟩ := h.moreLive t ht result hresult hmore
                obtain rfl := Option.some.inj (howner.symm.trans hother)
                exact hlive (h.withdrawn _ cancel hbox)
              obtain ⟨completions, hnotify, hupd⟩ :=
                CompletionSet.notify_cancelled h.wf hbox result
              refine ⟨completions, _, _, _, hok completions _ hnotify, hupd.wf, ?_,
                fun hmore => absurd hmore hlast, ?_⟩
              · intro slot other hcancel
                by_cases heq : slot = key.asUsize
                · rw [heq, hupd.here] at hcancel
                  simp at hcancel
                · rwa [hupd.others slot heq] at hcancel
              · intro rest hperm hmore
                refine ⟨(h.keyed.perm hperm).finish hdata hupd.others (by simp [hupd.here]), ?_⟩
                simpa [hmore] using (h.tally.perm hperm).finishSubmission (by simp [howner])

theorem owed_eraseIdx {i : Nat} {t : Taken} (hget : s.taken[i]? = some t) :
    s.owed.Perm (t.entry :: (s.ring.queue ++ (s.taken.eraseIdx i).map (·.entry))) := by
  obtain ⟨hlt, rfl⟩ := List.getElem?_eq_some_iff.mp hget
  have hperm := (List.getElem_cons_eraseIdx_perm hlt).symm.map (·.entry)
  exact (hperm.append_left s.ring.queue).trans List.perm_middle

theorem Inv.handle {i : Nat} (h : s.Inv) (hpermits : s.permits (.handle i) = true) :
    ∃ s', s.exec (.handle i) = .ok s' ∧ s'.Inv := by
  simp only [permits, Bool.and_eq_true] at hpermits
  obtain ⟨hwaiting, hany⟩ := hpermits
  have hqueue := h.flushed hwaiting
  cases hget : s.taken[i]? with
  | none => simp [hget] at hany
  | some t =>
      obtain ⟨entry, posted⟩ := t
      cases posted with
      | nil => simp [hget] at hany
      | cons result rest =>
          have ht : ⟨entry, result :: rest⟩ ∈ s.taken := List.mem_of_getElem? hget
          obtain ⟨hreceiver, completions, effects, active, detached, hok, hwf, hcancel, hmore,
            hlast⟩ := h.handleCompletion ht List.mem_cons_self
          refine ⟨_, by
            simp only [exec, hget, hok, bind, Except.bind, pure, Except.pure]
            rfl, ?_⟩
          have hcancelling : Cancelling completions.mailbox s.occupant s.ring.queue
              s.ring.canceled := by
            refine ⟨?_, h.cancelling.once, h.cancelling.count⟩
            rw [hqueue]
            simp
          have hwithdrawn : ∀ slot cancel, completions.mailbox slot = some (.cancelled cancel) →
              s.occupant slot ∈ s.withdrawn :=
            fun slot cancel hbox => h.withdrawn slot cancel (hcancel slot cancel hbox)
          have htruthful : ∀ event ∈ s.events ++ [.handled entry.request
              (s.receiver entry.userData)], event.Truthful := by
            intro event hevent
            rcases List.mem_append.mp hevent with hevent | hevent
            · exact h.truthful event hevent
            · rw [List.mem_singleton.mp hevent]
              exact hreceiver
          cases hresult : result.hasMore with
          | true =>
              obtain ⟨rfl, rfl, hkeyed⟩ := hmore hresult
              have howed : s.owed = s.ring.queue ++
                  (s.taken.set i ⟨entry, rest⟩).map (·.entry) := by
                rw [map_entry_set hget (by rfl), owed]
              rw [if_pos rfl]
              refine ⟨hwf, hkeyed.perm (.of_eq howed), h.tally.perm (.of_eq howed), hcancelling,
                hwithdrawn, ?_, ?_, fun _ => hqueue, htruthful⟩
              · intro t ht'
                rcases List.mem_or_eq_of_mem_set ht' with ht' | rfl
                · exact h.lastOnly t ht'
                · intro later hlater
                  refine h.lastOnly _ ht later ?_
                  cases rest with
                  | nil => simp at hlater
                  | cons next rest => exact List.mem_cons_of_mem _ hlater
              · intro t ht'
                rcases List.mem_or_eq_of_mem_set ht' with ht' | rfl
                · exact h.moreLive t ht'
                · exact fun later hlater => h.moreLive _ ht later (List.mem_cons_of_mem _ hlater)
          | false =>
              obtain ⟨hkeyed, htally⟩ := hlast _ (owed_eraseIdx hget) hresult
              rw [if_neg Bool.false_ne_true]
              exact ⟨hwf, hkeyed, htally, hcancelling, hwithdrawn,
                fun t ht' => h.lastOnly t (List.mem_of_mem_eraseIdx ht'),
                fun t ht' => h.moreLive t (List.mem_of_mem_eraseIdx ht'), fun _ => hqueue,
                htruthful⟩

/-! ## Whole runs -/

theorem Inv.step {command : Command W C} (h : s.Inv) (hpermits : s.permits command = true)
    (horderly : s.Orderly command) (hok : s.exec command = .ok s') : s'.Inv := by
  obtain ⟨hkeys, hcounters, hignored, hreads⟩ := horderly
  cases command with
  | submit slot waker =>
      simp only [permits, Bool.and_eq_true, Bool.not_eq_true'] at hpermits
      exact h.submit hpermits.1 hpermits.2 (by simpa [keysFit] using hkeys)
        (by simpa [countersFit] using hcounters) hok
  | submitDetached =>
      exact h.submitDetached (by simpa [permits] using hpermits)
        (by simpa [countersFit] using hcounters) hok
  | cancel key entry cancel =>
      refine h.cancel (by simpa [permits] using hpermits) ?_ ?_ hok
      · intro heq
        subst heq
        simpa [countersFit] using hcounters
      · intro t ht hdata result hresult
        have hquiet := List.all_eq_true.mp hreads t ht
        simp only [hdata, bne_self_eq_false, Bool.false_or, List.all_eq_true,
          Bool.not_eq_true'] at hquiet
        exact hquiet result hresult
  | checkResult key => exact h.checkResult hok
  | enter => exact h.enter hok
  | post i result => exact h.post hpermits hignored hok
  | handle i =>
      obtain ⟨_, hok', hinv⟩ := h.handle hpermits
      obtain rfl := Except.ok.inj (hok.symm.trans hok')
      exact hinv
  | leave =>
      obtain rfl := Except.ok.inj hok
      exact { h with flushed := by simp }

theorem Inv.of_reach (h : Reach (machine W C) Orderly s) : s.Inv := by
  refine h.invariant ?_ fun s command s' hinv hpermits horderly hok =>
    hinv.step hpermits horderly hok
  rintro _ ⟨options, entries, occupant, rfl⟩
  exact start_inv options entries occupant

end Inel.Reactor.System
