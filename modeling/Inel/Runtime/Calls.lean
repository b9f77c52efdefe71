import Inel.Runtime.Holding

/-!
# Calls as commands

A poll or a drop of a held submission is at most one command to ring and kernel. What
the commands do to the one mailbox they are about is stated once here for each.
-/

namespace Inel.Runtime

open Transitions
open Reactor hiding Move Phase Stage
open Tasks (TaskId Executor)

variable {O E Out T C : Type}

/-! ## Polls -/

def checked (key : Key) : Option RingResult → SubmissionState
  | none => .submitted key
  | some result => if result.hasMore then .submitted key else .completed

/-- A poll that returned. `streams` says that it was a stream's. -/
inductive Answered {α : Type} (s : System TaskId C) (streams : Bool) (sub : Submission O)
    (slot : Nat) (owner : TaskId) (polled : Polled α O Request TaskId C) : Prop
  | submits (key : Key) (hstate : sub.state = .initial)
      (hsubmit : s.ring.submit (.submission s.born) slot owner = .ok (key, polled.ring))
      (hnext : polled.submission.state = .submitted key) (huses : polled.uses = [.entry])
  | checks (key : Key) (ran : Ran (Option RingResult) (Ring Request TaskId C) TaskId C)
      (hstate : sub.state = .submitted key) (hcheck : s.ring.checkResult key = .ok ran)
      (hring : polled.ring = ran.state)
      (hnext : polled.submission = ⟨sub.op, checked key ran.value⟩)
      (huses : ∀ result, ran.value = some result → result.hasMore = true → streams = true →
        polled.uses = [])
      (hnone : ran.value = none → polled.uses = [])
  | ends (hstate : sub.state = .completed) (hring : polled.ring = s.ring)
      (hnext : polled.submission = sub) (huses : polled.uses = [])

variable {op : MultiOp O E Out C} {s s' : System TaskId C} {sub : Submission O} {slot : Nat}
  {owner : TaskId}

theorem answered_of_poll {polled : Polled Out O Request TaskId C}
    (h : sub.poll (named op s).toOp s.ring slot owner = .ok polled)
    (hvalue : ∃ value, polled.value = .ok value) : Answered s false sub slot owner polled := by
  rcases Submission.poll_eq_ok h with ⟨hstate, key, ring, hsubmit, rfl⟩ |
    ⟨key, ran, hstate, hcheck, rfl⟩
  · exact .submits key hstate hsubmit rfl rfl
  · obtain ⟨value, ring, effects⟩ := ran
    cases value with
    | none => exact .checks key _ hstate hcheck rfl rfl (by simp) (fun _ => rfl)
    | some result =>
        obtain ⟨value, hvalue⟩ := hvalue
        simp only [Submission.answered] at hvalue ⊢
        cases hresult : op.result sub.op result with
        | error panic =>
            have hpanic : (named op s).result sub.op result = .error panic := hresult
            simp [hpanic] at hvalue
        | ok out =>
            have hok : (named op s).result sub.op result = .ok out := hresult
            simp only [hok]
            exact .checks key _ hstate hcheck rfl rfl (by simp) (by simp)

theorem answered_of_pollNext {polled : Polled (Option Out) O Request TaskId C}
    (h : sub.pollNext (named op s) s.ring slot owner = .ok polled)
    (hvalue : ∃ value, polled.value = .ok value) : Answered s true sub slot owner polled := by
  rcases Submission.pollNext_eq_ok h with ⟨hstate, key, ring, hsubmit, rfl⟩ |
    ⟨key, ran, hstate, hcheck, rfl⟩ | ⟨hstate, rfl⟩
  · exact .submits key hstate hsubmit rfl rfl
  · obtain ⟨value, ring, effects⟩ := ran
    cases value with
    | none => exact .checks key _ hstate hcheck rfl rfl (by simp) (fun _ => rfl)
    | some result =>
        obtain ⟨value, hvalue⟩ := hvalue
        simp only [Submission.answeredNext] at hvalue ⊢
        cases hnext : op.next sub.op result with
        | error panic =>
            have hpanic : (named op s).next sub.op result = .error panic := hnext
            simp [hpanic] at hvalue
        | ok out =>
            have hok : (named op s).next sub.op result = .ok out := hnext
            simp only [hok]
            refine .checks key _ hstate hcheck rfl rfl ?_ (by simp)
            intro other hother hmore _
            obtain rfl := Option.some.inj hother
            simp [hmore]
  · exact .ends hstate rfl rfl rfl

theorem Answered.exec {α : Type} {streams : Bool} {polled : Polled α O Request TaskId C}
    (h : Answered s streams sub slot owner polled) {held : Held O} (hsub : held.submission = sub)
    (howner : held.owner = owner) :
    (command.asks slot held : Option (Command TaskId C)) = none ∧
      afterPoll s sub.state slot polled.ring = s ∨
    ∃ c, command.asks slot held = some c ∧
      s.exec c = .ok (afterPoll s sub.state slot polled.ring) := by
  subst hsub howner
  cases h with
  | submits key hstate hsubmit hnext huses =>
      right
      refine ⟨.submit slot held.owner, by simp only [command.asks, hstate], ?_⟩
      simp only [System.exec, hsubmit, afterPoll, hstate]
      rfl
  | checks key ran hstate hcheck hring hnext huses hnone =>
      right
      refine ⟨.checkResult key, by simp only [command.asks, hstate], ?_⟩
      simp only [System.exec, hcheck, afterPoll, hstate, hring]
      rfl
  | ends hstate hring hnext huses =>
      left
      simp only [command.asks, hstate, afterPoll, hring, and_self]

/-! ## Drops -/

theorem exec_of_drop {ran : Ran (List OpUse) (Ring Request TaskId C) TaskId C}
    (h : sub.drop (named op s).toOp s.ring = .ok ran) :
    (∀ key, sub.state ≠ .submitted key) ∧ afterDrop s sub.state ran.state = s ∨
    ∃ key done, sub.state = .submitted key ∧
      s.ring.cancel key ((op.entryCancel key.asU64).map fun _ =>
        .asyncCancel (s.occupant key.asUsize) key) (op.cancel sub.op) = .ok done ∧
      done.state = ran.state ∧
      s.exec (.cancel key (op.entryCancel key.asU64).isSome (op.cancel sub.op)) =
        .ok (afterDrop s sub.state ran.state) := by
  rcases Submission.drop_eq_ok h with ⟨hstate, rfl⟩ | ⟨key, done, hstate, hcancel, rfl⟩ |
    ⟨hstate, rfl⟩
  · exact Or.inl ⟨by simp [hstate], by simp [afterDrop, hstate]⟩
  · right
    simp only [named, Key.fromU64_asU64] at hcancel
    refine ⟨key, done, hstate, hcancel, rfl, ?_⟩
    have hentry : (if (op.entryCancel key.asU64).isSome then
        some (Request.asyncCancel (s.occupant key.asUsize) key) else none) =
        (op.entryCancel key.asU64).map fun _ => .asyncCancel (s.occupant key.asUsize) key := by
      cases op.entryCancel key.asU64 <;> rfl
    simp only [System.exec, hentry, hcancel, afterDrop, hstate]
    rfl
  · exact Or.inl ⟨by simp [hstate], by simp [afterDrop, hstate]⟩

/-! ## Completions -/

/-- Reading a completion, by whom it is for. -/
inductive Handled (s s' : System TaskId C) (i : Nat) (entry : Entry Request)
    (result : RingResult) : Prop
  | ignored (howner : entry.request.owner = none) (heffects : effects s i = [])
      (hset : s'.ring.completions = s.ring.completions)
  | live (key : Key) (pending : List RingResult) (waker : TaskId)
      (howner : entry.request.owner = some (s.occupant key.asUsize))
      (hseat : seatOf s i = key.asUsize)
      (hbox : s.ring.completions.mailbox key.asUsize = some (.live pending true))
      (hwaker : s.ring.completions.waker key.asUsize = some waker)
      (heffects : effects s i = [.wake waker])
      (hset : s.ring.completions.Touches s'.ring.completions key.asUsize
        (some (.live (pending ++ [result]) result.hasMore)))
  | cancelled (key : Key) (cancel : C)
      (howner : entry.request.owner = some (s.occupant key.asUsize))
      (hseat : seatOf s i = key.asUsize)
      (hbox : s.ring.completions.mailbox key.asUsize = some (.cancelled cancel))
      (heffects : effects s i = [.consume cancel result, .dropRaw cancel])
      (hset : s.ring.completions.Touches s'.ring.completions key.asUsize none)

theorem notify_touches {set : CompletionSet TaskId C} {key : Key} {result : RingResult}
    {ran : Ran Unit (CompletionSet TaskId C) TaskId C} {box : Option (Mailbox C)}
    (hok : set.notify key result = .ok ran) (hupd : set.Updates ran.state key.asUsize box) :
    set.Touches ran.state key.asUsize box := by
  refine ⟨hupd, CompletionSet.withCompletion_waker ?_ hok⟩
  exact fun _ => Completion.tryNotify_keeps result

theorem handled_of_exec {i : Nat} {entry : Entry Request} {result : RingResult}
    {rest : List RingResult} (hinv : s.Inv) (hget : s.taken[i]? = some ⟨entry, result :: rest⟩)
    (hok : s.exec (.handle i) = .ok s') : Handled s s' i entry result := by
  have hmem : entry ∈ s.owed := List.mem_append_right _
    (List.mem_map_of_mem (List.mem_of_getElem? hget))
  simp only [System.exec, hget] at hok
  obtain ⟨ran, hran, hret⟩ := bind_eq_ok hok
  have hring : s'.ring = ran.state := by
    rw [← Except.ok.inj hret]
  have heffects : effects s i = ran.effects := by
    simp only [effects, hget, hran]
  cases howner : entry.request.owner with
  | none =>
      have hdata := hinv.keyed.ignored entry hmem howner
      simp only [Ring.handleCompletion, hdata, beq_self_eq_true, if_true] at hran
      obtain rfl := Except.ok.inj hran
      exact .ignored howner heffects (by rw [hring])
  | some id =>
      obtain ⟨key, hdata, rfl, hexp⟩ := hinv.keyed.submission entry hmem id howner
      have hseat : seatOf s i = key.asUsize := by
        simp [seatOf, hget, hdata]
      rw [hdata, Ring.handleCompletion_key] at hran
      obtain ⟨notified, hnotify, hback⟩ := bind_eq_ok hran
      obtain rfl := Except.ok.inj hback
      cases hbox : s.ring.completions.mailbox key.asUsize with
      | none => simp [hbox] at hexp
      | some box =>
          cases box with
          | live pending more =>
              obtain rfl : more = true := by simpa [hbox, Mailbox.expects] using hexp
              obtain ⟨waker, set, hwaker, hok', hupd⟩ :=
                CompletionSet.notify_live hinv.wf hbox result
              obtain rfl := Except.ok.inj (hok'.symm.trans hnotify)
              have htouched := notify_touches hok' hupd
              exact .live key pending waker howner hseat hbox hwaker heffects
                (by rw [hring]; exact htouched)
          | cancelled cancel =>
              obtain ⟨set, hok', hupd⟩ := CompletionSet.notify_cancelled hinv.wf hbox result
              obtain rfl := Except.ok.inj (hok'.symm.trans hnotify)
              have htouched := notify_touches hok' hupd
              exact .cancelled key cancel howner hseat hbox heffects
                (by rw [hring]; exact htouched)

end Inel.Runtime
