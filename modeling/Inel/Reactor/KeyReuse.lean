import Inel.Reactor.RingInvariant

/-!
# Keys that are used again

A key is free for another submission once its last completion was read, while
cancellations and completions of the old one may still be about. In an orderly
run none of them reaches the new one.
-/

namespace Inel.Reactor.System

open SlotTable Transitions

variable {W C : Type} {s s' : System W C}

/-! ## A wait of the ring -/

/-- The completions that a list of positions draws from the kernel. -/
def drawn : List Taken → List Nat → List Cqe
  | _, [] => []
  | taken, i :: is =>
      match taken[i]? with
      | some ⟨entry, result :: rest⟩ =>
          ⟨entry.userData, result⟩ ::
            drawn (if result.hasMore then taken.set i ⟨entry, rest⟩ else taken.eraseIdx i) is
      | _ => drawn taken is

def handleAll (s : System W C) : List Nat → Except Panic (System W C)
  | [] => .ok s
  | i :: is => do
      let s ← s.exec (.handle i)
      s.handleAll is

theorem handleAll_ring {is : List Nat} (hok : s.handleAll is = .ok s') :
    ∃ effects, s.ring.handleCompletions (drawn s.taken is) = .ok ⟨(), s'.ring, effects⟩ := by
  induction is generalizing s with
  | nil =>
      obtain rfl := Except.ok.inj hok
      exact ⟨[], rfl⟩
  | cons i is ih =>
      obtain ⟨s₁, hhandle, hrest⟩ := bind_eq_ok hok
      obtain ⟨effects, htail⟩ := ih hrest
      simp only [exec] at hhandle
      split at hhandle
      · next entry result rest hget =>
          obtain ⟨ran, hran, hret⟩ := bind_eq_ok hhandle
          obtain rfl := Except.ok.inj hret
          simp only [drawn, hget, Ring.handleCompletions, hran, htail, bind, Except.bind,
            pure, Except.pure]
          exact ⟨_, rfl⟩
      · next hget =>
          obtain rfl := Except.ok.inj hhandle
          refine ⟨effects, ?_⟩
          simp only [drawn]
          exact htail

/-- Entering, then reading completions among those posted by then, is the wait of
the ring. -/
theorem wait_ring {s₁ s₂ s₃ : System W C} {is : List Nat} (henter : s.exec .enter = .ok s₁)
    (hposted : s₂.ring = s₁.ring) (hhandle : s₂.handleAll is = .ok s₃) :
    ∃ effects, s.ring.wait (drawn s₂.taken is) =
      .ok (s.ring.submitAndWait.1, ⟨(), s₃.ring, effects⟩) := by
  obtain ⟨effects, hok⟩ := handleAll_ring hhandle
  have hring : s₂.ring = s.ring.submitAndWait.2 := by
    have hentered : s.exec .enter = .ok { s with
        ring := s.ring.submitAndWait.2, waiting := true,
        taken := s.taken ++ s.ring.submitAndWait.1.map (⟨·, []⟩),
        events := s.events ++
          cancelEvents s.denotes (s.taken.map (·.entry)) s.ring.submitAndWait.1 } := rfl
    rw [hposted, ← Except.ok.inj (hentered.symm.trans henter)]
  rw [hring] at hok
  refine ⟨effects, ?_⟩
  simp only [Ring.wait, hok, bind, Except.bind, pure, Except.pure]

/-! ## Orderly runs -/

/-- Every completion is read without a panic by the submission that produced it,
and every cancellation the kernel takes finds its key unchanged. -/
theorem completions_reach_their_submission (h : Reach (machine W C) Orderly s) :
    (∀ event ∈ s.events, event.Truthful) ∧
      ∀ i, s.permits (.handle i) = true → ∃ s', s.exec (.handle i) = .ok s' := by
  have hinv := Inv.of_reach h
  refine ⟨hinv.truthful, fun i hpermits => ?_⟩
  obtain ⟨s', hok, -⟩ := hinv.handle hpermits
  exact ⟨s', hok⟩

def orderly (s : System W C) (command : Command W C) : Bool :=
  s.permits command && (s.keysFit command && s.countersFit command && s.ignoredOnce command &&
    s.readsFirst command)

theorem orderly_spec (s : System W C) (command : Command W C) (h : s.orderly command = true) :
    (machine W C).permits s command ∧ Orderly s command := by
  simp only [orderly, Bool.and_eq_true] at h
  exact ⟨h.1, h.2.1.1.1, h.2.1.1.2, h.2.1.2, h.2.2⟩

def sys (slots : List (Option (Completion Unit Unit))) (queue : List (Entry Request))
    (active detached : UInt32) (occupant : Nat → SubmissionId) (born : Nat) (taken : List Taken)
    (waiting : Bool) (events : List Event) : System Unit Unit where
  ring := { (Ring.build {} 4 : Ring Request Unit Unit) with
    queue := queue, active := active, detached := detached,
    completions := ⟨⟨slots⟩, .withCapacity 4⟩ }
  occupant := occupant
  born := born
  withdrawn := []
  taken := taken
  waiting := waiting
  events := events

theorem sys_init (occupant : Nat → SubmissionId) :
    (machine Unit Unit).init (sys [] [] 0 0 occupant 0 [] false []) :=
  ⟨{}, 4, occupant, rfl⟩

/-- A key that is cancelled and used again while its cancellation is under way. -/
theorem reused_key_unharmed :
    ∃ s : System Unit Unit, (∀ event ∈ s.events, event.Truthful) ∧
      s.events = [.handled (.submission 0) (some 0), .cancelling 0 (some 0) [.submission 0],
        .handled (.asyncCancel 0 ⟨0⟩) none, .handled (.submission 0) (some 0),
        .handled (.submission 1) (some 1)] ∧ s.occupant 0 = 1 := by
  obtain ⟨s, hreach, htest⟩ := Reach.of_replay (M := machine Unit Unit) orderly orderly_spec
    (.start (sys_init fun _ => 0))
    [.submit 0 (), .enter, .post 0 ⟨7, cqeMore⟩, .handle 0, .leave, .cancel ⟨0⟩ true (),
      .enter, .post 0 ⟨-125, 0⟩, .post 1 ⟨0, 0⟩, .handle 1, .handle 0, .leave, .submit 0 (),
      .enter, .post 0 ⟨4, 0⟩, .handle 0, .leave]
    (fun s => s.events = [.handled (.submission 0) (some 0),
      .cancelling 0 (some 0) [.submission 0], .handled (.asyncCancel 0 ⟨0⟩) none,
      .handled (.submission 0) (some 0), .handled (.submission 1) (some 1)] &&
      s.occupant 0 = 1) rfl
  simp only [Bool.and_eq_true, decide_eq_true_eq] at htest
  exact ⟨s, (completions_reach_their_submission hreach).1, htest⟩

/-! ## Runs that are not orderly -/

/-- Reading an announcement of more after the cancel frees the key too early. -/
theorem astray_unread :
    ∃ s, Reach (machine Unit Unit) (fun s command => s.keysFit command = true ∧
        s.countersFit command = true ∧ s.ignoredOnce command = true) s ∧
      ∃ event ∈ s.events, ¬ event.Truthful := by
  obtain ⟨s, hreach, htest⟩ := Reach.of_replay (M := machine Unit Unit)
    (fun s command => s.permits command &&
      (s.keysFit command && (s.countersFit command && s.ignoredOnce command)))
    (fun s command h => by simp only [Bool.and_eq_true] at h; exact h)
    (.start (sys_init fun _ => 0))
    [.submit 0 (), .submitDetached, .enter, .post 1 ⟨0, 0⟩, .handle 1, .leave,
      .post 0 ⟨7, cqeMore⟩, .cancel ⟨0⟩ false (), .enter, .handle 0, .leave, .submit 0 (), .enter,
      .post 0 ⟨-125, 0⟩, .handle 0]
    (fun s => decide (.handled (.submission 0) (some 1) ∈ s.events)) rfl
  exact ⟨s, hreach, _, of_decide_eq_true htest, by simp [Event.Truthful, Request.owner]⟩

/-- Several completions of an ignored entry make the counters sum to zero with
entries outstanding, so that a wait leaves a cancellation in the queue. -/
theorem astray_ignored :
    ∃ s, Reach (machine Unit Unit) (fun s command => s.keysFit command = true ∧
        s.countersFit command = true ∧ s.readsFirst command = true) s ∧
      ∃ event ∈ s.events, ¬ event.Truthful := by
  obtain ⟨s, hreach, htest⟩ := Reach.of_replay (M := machine Unit Unit)
    (fun s command => s.permits command &&
      (s.keysFit command && (s.countersFit command && s.readsFirst command)))
    (fun s command h => by simp only [Bool.and_eq_true] at h; exact h)
    (.start (sys_init fun _ => 0))
    [.submit 0 (), .submitDetached, .enter, .post 1 ⟨0, cqeMore⟩, .post 1 ⟨0, cqeMore⟩,
      .post 1 ⟨0, cqeMore⟩, .handle 1, .handle 1, .handle 1, .leave, .cancel ⟨0⟩ true (), .enter,
      .post 0 ⟨-125, 0⟩, .handle 0, .leave, .submit 0 (), .submitDetached, .enter]
    (fun s => decide (.cancelling 0 (some 1) [] ∈ s.events)) rfl
  exact ⟨s, hreach, _, of_decide_eq_true htest, by simp [Event.Truthful]⟩

/-- The entry of the first submission, waiting in the kernel. -/
def firstTaken : Taken := ⟨⟨.submission 0, 0⟩, []⟩

/-- The slot of a submission without a result, and of one with its last. -/
abbrev fresh : Option (Completion Unit Unit) := some (.vacant ())

abbrev done : Option (Completion Unit Unit) := some (.single ⟨0, 0⟩)

theorem reach_pushed (cond : System Unit Unit → Command Unit Unit → Prop)
    (hcond : ∀ s command, s.countersFit command = true → s.ignoredOnce command = true →
      s.readsFirst command = true → s.single command = true → cond s command)
    {slots : List (Option (Completion Unit Unit))} {occupant : Nat → SubmissionId} {born : Nat}
    {events : List Event} (hsome : ∀ slot ∈ slots, slot.isSome)
    (hreach : Reach (machine Unit Unit) cond
      (sys slots [] 1 0 occupant born [firstTaken] false events)) :
    Reach (machine Unit Unit) cond
      (sys (slots ++ [fresh]) [⟨.submission born, (Key.fromUsize slots.length).asU64⟩] 2 0
        (Function.update occupant slots.length born) (born + 1) [firstTaken] false events) := by
  have hadmits : (⟨slots⟩ : Slab (Completion Unit Unit)).admits slots.length = true := by
    simpa [Slab.admits] using hsome
  exact hreach.move (.submit slots.length ())
    (by simpa [machine, permits, sys] using hadmits) (hcond _ _ rfl rfl rfl rfl)
    (by simp [machine, exec, sys, Ring.build, Ring.submit, Ring.push, CompletionSet.insert,
      Slab.insert, Completion.new, bind, Except.bind, pure, Except.pure])

/-- One more submission is pushed, taken and completed; `target` is the slot that
its key names. -/
theorem reach_round (cond : System Unit Unit → Command Unit Unit → Prop)
    (hcond : ∀ s command, s.countersFit command = true → s.ignoredOnce command = true →
      s.readsFirst command = true → s.single command = true → cond s command)
    {slots : List (Option (Completion Unit Unit))} {occupant : Nat → SubmissionId} {born : Nat}
    {events : List Event} (target : Nat) (hsome : ∀ slot ∈ slots, slot.isSome)
    (htarget : (Key.fromUsize slots.length).asUsize = target)
    (hget : Slab.get ⟨slots ++ [fresh]⟩ target = fresh)
    (hreach : Reach (machine Unit Unit) cond
      (sys slots [] 1 0 occupant born [firstTaken] false events)) :
    Reach (machine Unit Unit) cond
      (sys ((slots ++ [fresh]).set target done) [] 1 0
        (Function.update occupant slots.length born) (born + 1) [firstTaken] true
        (events ++ [.handled (.submission born)
          (some (Function.update occupant slots.length born target))])) := by
  have hsubmit := reach_pushed cond hcond hsome hreach
  have hentered : Reach (machine Unit Unit) cond (sys (slots ++ [fresh]) [] 2 0
      (Function.update occupant slots.length born) (born + 1)
      [firstTaken, ⟨⟨.submission born, (Key.fromUsize slots.length).asU64⟩, []⟩] true events) :=
    hsubmit.move .enter (by rfl) (hcond _ _ rfl rfl rfl rfl) (by
      simp [machine, exec, sys, Ring.build, Ring.submitAndWait, Ring.idle, cancelEvents])
  have hposted : Reach (machine Unit Unit) cond (sys (slots ++ [fresh]) [] 2 0
      (Function.update occupant slots.length born) (born + 1)
      [firstTaken, ⟨⟨.submission born, (Key.fromUsize slots.length).asU64⟩, [⟨0, 0⟩]⟩] true
      events) :=
    hentered.move (.post 1 ⟨0, 0⟩) (by rfl) (hcond _ _ rfl rfl rfl rfl) (by rfl)
  refine hposted.move (.handle 1) (by rfl) (hcond _ _ rfl rfl rfl rfl) ?_
  have hignore : ((Key.fromUsize slots.length).asU64 == ignoreKey) = false := by
    simpa using Key.asU64_ne_ignoreKey _
  have hnotify : CompletionSet.notify ⟨⟨slots ++ [fresh]⟩, .withCapacity 4⟩
      (Key.fromUsize slots.length) (⟨0, 0⟩ : RingResult) =
      .ok (⟨(), ⟨⟨(slots ++ [fresh]).set target done⟩, .withCapacity 4⟩, [.wake ()]⟩ :
        Ran Unit (CompletionSet Unit Unit) Unit Unit) := by
    rw [← htarget] at hget ⊢
    exact CompletionSet.notify_single hget rfl
  simp only [machine, exec, sys, List.getElem?_cons_succ, List.getElem?_cons_zero,
    Ring.handleCompletion, hignore, Bool.false_eq_true, if_false, Key.fromU64_asU64, hnotify,
    receiver, denotes, htarget, hget, bind, Except.bind, pure, Except.pure]
  rfl

theorem reach_first (cond : System Unit Unit → Command Unit Unit → Prop)
    (hcond : ∀ s command, s.countersFit command = true → s.keysFit command = true →
      s.ignoredOnce command = true → s.readsFirst command = true → s.single command = true →
      cond s command) :
    Reach (machine Unit Unit) cond (sys [fresh] [] 1 0 (Function.update (fun _ => 0) 0 0) 1
      [firstTaken] false [.handled .detached none]) := by
  refine Reach.replay (fun s command => s.permits command &&
      (s.countersFit command && (s.keysFit command && (s.ignoredOnce command &&
        (s.readsFirst command && s.single command)))))
    (fun s command h => ?_) (.start (sys_init fun _ => 0))
    [.submit 0 (), .submitDetached, .enter, .post 1 ⟨0, 0⟩, .handle 1, .leave] rfl
  simp only [Bool.and_eq_true] at h
  exact ⟨h.1, hcond s command h.2.1 h.2.2.1 h.2.2.2.1 h.2.2.2.2.1 h.2.2.2.2.2⟩

/-- `n` submissions whose results nobody took, and the first one still waiting. -/
theorem reach_crowd (cond : System Unit Unit → Command Unit Unit → Prop)
    (hcond : ∀ s command, s.countersFit command = true → s.ignoredOnce command = true →
      s.readsFirst command = true → s.single command = true → cond s command) (n : Nat)
    (hn : n < 2 ^ 32) :
    ∃ slots occupant events, slots.length = n + 1 ∧ (∀ slot ∈ slots, slot.isSome) ∧
      Slab.get ⟨slots⟩ 0 = fresh ∧ occupant 0 = 0 ∧
      Reach (machine Unit Unit) cond
        (sys slots [] 1 0 occupant (n + 1) [firstTaken] false events) := by
  induction n with
  | zero =>
      exact ⟨[fresh], Function.update (fun _ => 0) 0 0, _, rfl, by simp, rfl, by simp,
        reach_first cond fun s command hcounters _ => hcond s command hcounters⟩
  | succ n ih =>
      obtain ⟨slots, occupant, events, hlen, hsome, hfirst, hocc, hreach⟩ := ih (by omega)
      have hround := reach_round cond hcond slots.length hsome
        (Key.asUsize_fromUsize_of_lt (by omega)) (by simp [Slab.get]) hreach
      rw [List.set_append_right _ _ (Nat.le_refl _), Nat.sub_self] at hround
      refine ⟨slots ++ [done], Function.update occupant slots.length (n + 1), _, by simp [hlen],
        ?_, ?_, ?_, hround.move .leave (by rfl) (hcond _ _ rfl rfl rfl rfl) (by rfl)⟩
      · intro slot hmem
        rcases List.mem_append.mp hmem with hmem | hmem
        · exact hsome slot hmem
        · rw [List.mem_singleton.mp hmem]
          rfl
      · have hpos : 0 < slots.length := by omega
        rw [← hfirst, Slab.get, Slab.get, List.getElem?_append_left hpos]
      · rw [Function.update_of_ne (by omega), hocc]

/-- The key of slot `2 ^ 32` is that of the first slot. -/
theorem astray_keys :
    ∃ s, Reach (machine Unit Unit) (fun s command => s.countersFit command = true ∧
        s.ignoredOnce command = true ∧ s.readsFirst command = true) s ∧
      ∃ event ∈ s.events, ¬ event.Truthful := by
  obtain ⟨slots, occupant, events, hlen, hsome, hfirst, hocc, hreach⟩ :=
    reach_crowd (fun s command => s.countersFit command = true ∧ s.ignoredOnce command = true ∧
        s.readsFirst command = true)
      (fun _ _ hcounters hignored hreads _ => ⟨hcounters, hignored, hreads⟩) (2 ^ 32 - 1) (by omega)
  have hpos : 0 < slots.length := by omega
  have hround := reach_round _
    (fun _ _ hcounters hignored hreads _ => ⟨hcounters, hignored, hreads⟩) 0 hsome
    (by rw [hlen]; rfl) (by rw [Slab.get, List.getElem?_append_left hpos]; exact hfirst) hreach
  refine ⟨_, hround, _, List.mem_append_right _ (List.mem_singleton_self _), ?_⟩
  rw [Function.update_of_ne (by omega), hocc]
  simp [Event.Truthful, Request.owner]

/-- A detached entry, waiting in the kernel. -/
def detachedTaken : Taken := ⟨⟨.detached, ignoreKey⟩, []⟩

theorem UInt32.ofNat_succ (n : Nat) : UInt32.ofNat n + 1 = UInt32.ofNat (n + 1) :=
  (UInt32.ofNat_add n 1).symm

/-- One more detached entry that nobody completes: two are pushed and the first of
them completes. -/
theorem reach_detached_succ (cond : System Unit Unit → Command Unit Unit → Prop)
    (hcond : ∀ s command, s.keysFit command = true → s.ignoredOnce command = true →
      s.readsFirst command = true → s.single command = true → cond s command)
    {slots : List (Option (Completion Unit Unit))} {active : UInt32}
    {occupant : Nat → SubmissionId} {born n : Nat} {front : List Taken} {events : List Event}
    (hbusy : (active + (UInt32.ofNat n + 1 + 1) == 0) = false)
    (hreach : Reach (machine Unit Unit) cond (sys slots [] active (.ofNat n) occupant born
      (front ++ List.replicate n detachedTaken) false events)) :
    ∃ events, Reach (machine Unit Unit) cond (sys slots [] active (.ofNat (n + 1)) occupant born
      (front ++ List.replicate (n + 1) detachedTaken) false events) := by
  have hpushed := (hreach.move .submitDetached (by rfl) (hcond _ _ rfl rfl rfl rfl)
    (by rfl)).move .submitDetached (by rfl) (hcond _ _ rfl rfl rfl rfl) (by rfl)
  have htaken : front ++ List.replicate n detachedTaken ++ [detachedTaken, detachedTaken] =
      front ++ detachedTaken :: List.replicate (n + 1) detachedTaken := by
    rw [← List.replicate_succ, List.append_assoc]
    exact congrArg _ (List.replicate_append_replicate (m := 2))
  have hentered : Reach (machine Unit Unit) cond (sys slots [] active (.ofNat n + 1 + 1) occupant
      born (front ++ detachedTaken :: List.replicate (n + 1) detachedTaken) true
      (events ++ [])) := by
    rw [← htaken]
    exact hpushed.move .enter (by rfl) (hcond _ _ rfl rfl rfl rfl) (exec_enter _ hbusy)
  have hposted : Reach (machine Unit Unit) cond (sys slots [] active (.ofNat n + 1 + 1) occupant
      born (front ++ ⟨⟨.detached, ignoreKey⟩, [⟨0, 0⟩]⟩ :: List.replicate (n + 1) detachedTaken)
      true (events ++ [])) :=
    hentered.move (.post front.length ⟨0, 0⟩) (by simp [machine, permits, sys, detachedTaken])
      (hcond _ _ rfl rfl rfl rfl) (by simp [machine, exec, sys, detachedTaken])
  have hhandled : Reach (machine Unit Unit) cond (sys slots [] active (.ofNat n + 1 + 1 - 1)
      occupant born (front ++ List.replicate (n + 1) detachedTaken) true
      (events ++ [] ++ [.handled .detached none])) :=
    hposted.move (.handle front.length) (by simp [machine, permits, sys])
      (hcond _ _ rfl rfl rfl rfl) (by
        have hlast : (⟨0, 0⟩ : RingResult).hasMore = false := rfl
        simp [machine, exec, sys, Ring.handleCompletion, receiver, hlast,
          List.eraseIdx_append_of_length_le])
  have hleft := hhandled.move .leave (by rfl) (hcond _ _ rfl rfl rfl rfl) (by rfl)
  rw [UInt32.add_sub_cancel, UInt32.ofNat_succ] at hleft
  exact ⟨_, hleft⟩

/-- `n` detached entries that nobody completes, and the first submission. -/
theorem reach_backlog (cond : System Unit Unit → Command Unit Unit → Prop)
    (hcond : ∀ s command, s.keysFit command = true → s.ignoredOnce command = true →
      s.readsFirst command = true → s.single command = true → cond s command) (n : Nat)
    (hn : n + 3 ≤ 2 ^ 32) :
    ∃ events, Reach (machine Unit Unit) cond (sys [fresh] [] 1 (.ofNat n)
      (Function.update (fun _ => 0) 0 0) 1 (firstTaken :: List.replicate n detachedTaken) false
      events) := by
  induction n with
  | zero =>
      exact ⟨_, reach_first cond fun s command _ => hcond s command⟩
  | succ n ih =>
      obtain ⟨events, hreach⟩ := ih (by omega)
      have hbusy : (1 + (UInt32.ofNat n + 1 + 1) == 0) = false := by
        rw [UInt32.ofNat_succ, UInt32.ofNat_succ, beq_eq_false_iff_ne, Ne, ← UInt32.toNat_inj,
          UInt32.toNat_add, UInt32.toNat_ofNat', UInt32.toNat_one, UInt32.toNat_zero]
        omega
      have hfront : firstTaken :: List.replicate n detachedTaken =
          [firstTaken] ++ List.replicate n detachedTaken := rfl
      rw [hfront] at hreach
      exact reach_detached_succ cond hcond hbusy hreach

/-- While the counters sum to zero a wait does not hand over the queue, so that a
cancellation stays in it until its key is used again. -/
theorem reach_stale (cond : System Unit Unit → Command Unit Unit → Prop)
    (hcond : ∀ s command, s.keysFit command = true → s.ignoredOnce command = true →
      s.readsFirst command = true → s.single command = true → cond s command)
    {detached : UInt32} {m : Nat} {events : List Event}
    (hidle : (1 + (detached + 1 + 1) == 0) = true)
    (hbusy : (1 + (detached + 1 + 1 - 1) == 0) = false)
    (hreach : Reach (machine Unit Unit) cond (sys [fresh] [] 1 detached
      (Function.update (fun _ => 0) 0 0) 1
      (firstTaken :: detachedTaken :: List.replicate m detachedTaken) false events)) :
    ∃ s, Reach (machine Unit Unit) cond s ∧ ∃ event ∈ s.events, ¬ event.Truthful := by
  have hpushed := hreach.move .submitDetached (by rfl) (hcond _ _ rfl rfl rfl rfl)
    (by rfl)
  have hcancelled := hpushed.move (.cancel ⟨0⟩ true ()) (by rfl)
    (hcond _ _ rfl rfl (by simp [readsFirst, sys, firstTaken, detachedTaken]) rfl) (by rfl)
  have hentered := hcancelled.move .enter (by rfl) (hcond _ _ rfl rfl rfl rfl)
    (exec_enter_idle _ hidle)
  have hposted := hentered.move (.post 0 ⟨0, 0⟩) (by rfl) (hcond _ _ rfl rfl rfl rfl)
    (by rfl)
  have hhandled := hposted.move (.handle 0) (by rfl) (hcond _ _ rfl rfl rfl rfl) (by rfl)
  have hleft := hhandled.move .leave (by rfl) (hcond _ _ rfl rfl rfl rfl) (by rfl)
  have hreused := hleft.move (.submit 0 ()) (by rfl) (hcond _ _ rfl rfl rfl rfl) (by rfl)
  -- the first submission is through and the second has taken its place
  have hone : (1 : UInt32) - 1 + 1 = 1 := rfl
  have hidle' : (1 - 1 + 1 + (detached + 1 + 1) == 0) = true := by rwa [hone]
  have hbusy' : (1 - 1 + 1 + (detached + 1 + 1 - 1) == 0) = false := by rwa [hone]
  have hentered' := hreused.move .enter (by rfl) (hcond _ _ rfl rfl rfl rfl)
    (exec_enter_idle _ hidle')
  have hposted' := hentered'.move (.post 0 ⟨0, 0⟩) (by rfl) (hcond _ _ rfl rfl rfl rfl)
    (by rfl)
  have hhandled' := hposted'.move (.handle 0) (by rfl) (hcond _ _ rfl rfl rfl rfl)
    (by rfl)
  have hleft' := hhandled'.move .leave (by rfl) (hcond _ _ rfl rfl rfl rfl) (by rfl)
  have hflushed := hleft'.move .enter (by rfl) (hcond _ _ rfl rfl rfl rfl)
    (exec_enter _ hbusy')
  refine ⟨_, hflushed, _, List.mem_append_right _ (List.mem_singleton_self _), ?_⟩
  intro htruthful
  have hid : (1 : Nat) = 0 := Option.some.inj htruthful.1
  omega

/-- When the counters sum to `2 ^ 32` a wait leaves a cancellation in the queue. -/
theorem astray_counters :
    ∃ s, Reach (machine Unit Unit) (fun s command => s.keysFit command = true ∧
        s.ignoredOnce command = true ∧ s.readsFirst command = true) s ∧
      ∃ event ∈ s.events, ¬ event.Truthful := by
  obtain ⟨m, hm⟩ : ∃ m, m + 4 = 2 ^ 32 := ⟨2 ^ 32 - 4, by omega⟩
  obtain ⟨events, hreach⟩ := reach_backlog (fun s command =>
      s.keysFit command = true ∧ s.ignoredOnce command = true ∧ s.readsFirst command = true)
    (fun _ _ hkeys hignored hreads _ => ⟨hkeys, hignored, hreads⟩) (m + 1) (by omega)
  have hdetached : UInt32.ofNat (m + 1) = 0xFFFFFFFD := by
    rw [show m + 1 = 0xFFFFFFFD by omega]
    rfl
  rw [hdetached] at hreach
  exact reach_stale _ (fun _ _ hkeys hignored hreads _ => ⟨hkeys, hignored, hreads⟩) rfl rfl hreach

/-- None of the four conditions of an orderly run can be left out. -/
theorem astray_unless_orderly :
    (∃ s, Reach (machine Unit Unit) (fun s command => s.countersFit command = true ∧
        s.ignoredOnce command = true ∧ s.readsFirst command = true) s ∧
      ∃ event ∈ s.events, ¬ event.Truthful) ∧
    (∃ s, Reach (machine Unit Unit) (fun s command => s.keysFit command = true ∧
        s.ignoredOnce command = true ∧ s.readsFirst command = true) s ∧
      ∃ event ∈ s.events, ¬ event.Truthful) ∧
    (∃ s, Reach (machine Unit Unit) (fun s command => s.keysFit command = true ∧
        s.countersFit command = true ∧ s.readsFirst command = true) s ∧
      ∃ event ∈ s.events, ¬ event.Truthful) ∧
    ∃ s, Reach (machine Unit Unit) (fun s command => s.keysFit command = true ∧
        s.countersFit command = true ∧ s.ignoredOnce command = true) s ∧
      ∃ event ∈ s.events, ¬ event.Truthful :=
  ⟨astray_keys, astray_counters, astray_ignored, astray_unread⟩

end Inel.Reactor.System
