import Inel.Reactor.Lifetime

/-!
# The course of a submission

A submission without its ring: the results it has not read, the waker they wake,
whether more will follow, or the cancellation that took its place. The ring, used
by others with keys of their own, makes no difference to it.
-/

namespace Inel.Reactor

open SlotTable Transitions

variable {O E Out W C : Type}

/-! ## What the calls do to the mailbox of a key -/

namespace Ring

variable {ring ring' : Ring E W C} {key : Key}

theorem submit_spec {request : E} {slot : Nat} {waker : W} (hwf : ring.completions.Wf)
    (hadmits : ring.completions.slab.admits slot = true)
    (hlen : ring.completions.slab.len < 2 ^ 32)
    (hok : ring.submit request slot waker = .ok (key, ring')) :
    ring'.completions.Wf ∧ ring'.completions.mailbox key.asUsize = some (.live [] true) ∧
      ring'.completions.waker key.asUsize = some waker ∧
      ∀ other, ring.completions.mailbox other ≠ none →
        ring'.completions.mailbox other = ring.completions.mailbox other ∧
        ring'.completions.waker other = ring.completions.waker other := by
  obtain ⟨rfl, rfl⟩ := submit_eq_ok hok
  have hslot : slot < 2 ^ 32 := Slab.lt_of_admits hadmits hwf.slots_le hlen
  have hvacant := hwf.mailbox_eq_none_iff.mpr (Slab.get_of_admits hadmits)
  obtain ⟨-, hwf', hbox, hwaker, hothers⟩ :=
    CompletionSet.insert_spec hwf hadmits hslot waker
  rw [Key.asUsize_fromUsize_of_lt hslot]
  refine ⟨hwf', hbox, hwaker, fun other hother => hothers other ?_⟩
  intro heq
  subst heq
  exact hother hvacant

theorem checkResult_spec {pending : List RingResult} {more : Bool} (hwf : ring.completions.Wf)
    (hbox : ring.completions.mailbox key.asUsize = some (.live pending more))
    {ran : Ran (Option RingResult) (Ring E W C) W C} (hok : ring.checkResult key = .ok ran) :
    ran.value = pending.head? ∧ CompletionSet.Updates ring.completions ran.state.completions
      key.asUsize (Mailbox.remaining pending.tail more) := by
  obtain ⟨completions, hresult, hstate⟩ := checkResult_eq_ok hok
  obtain ⟨set, hresult', hupd⟩ := CompletionSet.result_live hwf hbox
  obtain ⟨hvalue, rfl, -⟩ := Ran.mk.inj (Except.ok.inj (hresult.symm.trans hresult'))
  rw [hstate]
  exact ⟨hvalue, hupd⟩

theorem cancel_spec {pending : List RingResult} {more : Bool} (hwf : ring.completions.Wf)
    (hbox : ring.completions.mailbox key.asUsize = some (.live pending more)) {request : Option E}
    {cancellation : C} {ran : Ran Unit (Ring E W C) W C}
    (hok : ring.cancel key request cancellation = .ok ran) :
    ran.effects =
        pending.map (.consume cancellation) ++ (if more then [] else [.dropRaw cancellation]) ∧
      CompletionSet.Updates ring.completions ran.state.completions key.asUsize
        (Mailbox.afterCancel cancellation more) := by
  obtain ⟨accepted, completions, hcancel, hstate⟩ := cancel_eq_ok hok
  obtain ⟨set, hcancel', hupd⟩ := CompletionSet.cancel_live hwf hbox cancellation
  obtain ⟨-, rfl, heffects⟩ := Ran.mk.inj (Except.ok.inj (hcancel.symm.trans hcancel'))
  rw [hstate, cancelled_completions]
  exact ⟨heffects, hupd⟩

/-- The completion of a key's own entry notifies the key. -/
theorem handleCompletion_key (ring : Ring E W C) (key : Key) (result : RingResult) :
    ring.handleCompletion ⟨key.asU64, result⟩ = do
      let ran ← ring.completions.notify key result
      return ⟨(), { ring with
        active := if result.hasMore then ring.active else ring.active - 1,
        completions := ran.state }, ran.effects⟩ := by
  have hignore : (key.asU64 == ignoreKey) = false := by
    simpa using key.asU64_ne_ignoreKey
  simp only [handleCompletion, hignore, Bool.false_eq_true, if_false, Key.fromU64_asU64]

theorem handleCompletion_updates {cqe : Cqe} (hwf : ring.completions.Wf)
    {ran : Ran Unit (Ring E W C) W C} (hok : ring.handleCompletion cqe = .ok ran) :
    (cqe.userData = ignoreKey ∧ ran.state.completions = ring.completions) ∨
      cqe.userData ≠ ignoreKey ∧ ∃ box, CompletionSet.Updates ring.completions
        ran.state.completions (Key.fromU64 cqe.userData).asUsize box := by
  unfold handleCompletion at hok
  by_cases hdata : cqe.userData = ignoreKey
  · simp only [hdata, beq_self_eq_true, if_true] at hok
    rw [← Except.ok.inj hok]
    exact Or.inl ⟨hdata, rfl⟩
  · rw [if_neg (by simpa using hdata)] at hok
    obtain ⟨notified, hnotify, hret⟩ := bind_eq_ok hok
    rw [← Except.ok.inj hret]
    exact Or.inr ⟨hdata, CompletionSet.notify_updates hwf hnotify⟩

end Ring

/-- Calls of others leave a mailbox alone that is not their own. -/
theorem RingCall.run_spec {call : RingCall E W C} {ring ring' : Ring E W C}
    (hwf : ring.completions.Wf) (hadmitted : call.admitted ring = true)
    (hfits : call.fits ring = true) (hok : call.run ring = .ok ring') :
    ring'.completions.Wf ∧ ∀ slot, ring.completions.mailbox slot ≠ none →
      (∀ key, call.key = some key → key.asUsize ≠ slot) →
      ring'.completions.mailbox slot = ring.completions.mailbox slot ∧
      ring'.completions.waker slot = ring.completions.waker slot := by
  have hupdates : ∀ {set : CompletionSet W C} {key : Key},
      (∃ box, CompletionSet.Updates ring.completions set key.asUsize box) →
      set.Wf ∧ ∀ slot, ring.completions.mailbox slot ≠ none →
        (∀ key', some key = some key' → key'.asUsize ≠ slot) →
        set.mailbox slot = ring.completions.mailbox slot ∧
        set.waker slot = ring.completions.waker slot := by
    rintro set key ⟨box, hupd⟩
    refine ⟨hupd.wf, fun slot _ hne => ?_⟩
    exact ⟨hupd.others slot (hne key rfl).symm, hupd.wakers slot (hne key rfl).symm⟩
  cases call with
  | submit request slot waker =>
      obtain ⟨⟨key, pushed⟩, hsubmit, hret⟩ := bind_eq_ok hok
      obtain rfl := Except.ok.inj hret
      obtain ⟨hwf', -, -, hothers⟩ :=
        Ring.submit_spec hwf hadmitted (by simpa [fits] using hfits) hsubmit
      exact ⟨hwf', fun other hother _ => hothers other hother⟩
  | submitDetached request =>
      rw [Ring.submitDetached_eq_ok hok]
      exact ⟨hwf, fun _ _ _ => ⟨rfl, rfl⟩⟩
  | cancel key request cancellation =>
      obtain ⟨ran, hcancel, hret⟩ := bind_eq_ok hok
      obtain rfl := Except.ok.inj hret
      obtain ⟨accepted, completions, hset, hstate⟩ := Ring.cancel_eq_ok hcancel
      rw [hstate, Ring.cancelled_completions]
      exact hupdates (CompletionSet.cancel_updates hwf hset)
  | checkResult key =>
      obtain ⟨ran, hcheck, hret⟩ := bind_eq_ok hok
      obtain rfl := Except.ok.inj hret
      obtain ⟨completions, hset, hstate⟩ := Ring.checkResult_eq_ok hcheck
      rw [hstate]
      exact hupdates (CompletionSet.result_updates hwf hset)
  | enter =>
      obtain rfl := Except.ok.inj hok
      unfold Ring.submitAndWait
      split <;> exact ⟨hwf, fun _ _ _ => ⟨rfl, rfl⟩⟩
  | completion cqe =>
      obtain ⟨ran, hhandle, hret⟩ := bind_eq_ok hok
      obtain rfl := Except.ok.inj hret
      rcases Ring.handleCompletion_updates hwf hhandle with ⟨-, hsame⟩ | ⟨hdata, hupd⟩
      · rw [hsame]
        exact ⟨hwf, fun _ _ _ => ⟨rfl, rfl⟩⟩
      · have hkey : (RingCall.completion cqe : RingCall E W C).key =
            some (Key.fromU64 cqe.userData) := by
          simp [key, hdata]
        rw [hkey]
        exact hupdates hupd

/-! ## The course -/

inductive Stage (W C : Type)
  | fresh
  | waiting (waker : W) (pending : List RingResult) (more : Bool)
  | done
  /-- Dropped, with the last result still to come. -/
  | cancelled (cancel : C)
  /-- Dropped, and the key given up; results may come nevertheless if `owed`. -/
  | closed (owed : Bool)
  | panicked

structure Course (O W C : Type) where
  op : O
  stage : Stage W C

/-- The waker of a poll. -/
def Move.asker : Move O E W C → Option W
  | .poll _ waker => some waker
  | .pollNext _ waker => some waker
  | _ => none

/-- What a poll makes the op decode a result with. -/
def Move.decode (op : MultiOp O E Out C) : Move O E W C → O → RingResult → Except Panic Out
  | .pollNext _ _ => op.next
  | _ => op.result

/-- The moves of a course. The uses of the op are nobody's concern here. -/
inductive Course.Step (op : MultiOp O E Out C) :
    Course O W C → Move O E W C → Course O W C → Outcome Out W C → Prop
  | submits {o : O} {move : Move O E W C} {waker : W} {uses : List OpUse}
      (hmove : move.asker = some waker) :
      Step op ⟨o, .fresh⟩ move ⟨(op.entry o).2, .waiting waker [] true⟩
        ⟨some (.ok .pending), uses, []⟩
  | waits {o : O} {move : Move O E W C} {asker waker : W} {more : Bool} {uses : List OpUse}
      (hmove : move.asker = some asker) :
      Step op ⟨o, .waiting waker [] more⟩ move ⟨o, .waiting waker [] more⟩
        ⟨some (.ok .pending), uses, []⟩
  | answers {o : O} {move : Move O E W C} {asker waker : W} {result : RingResult}
      {rest : List RingResult} {more : Bool} {value : Out} {uses : List OpUse}
      (hmove : move.asker = some asker) (hdecode : move.decode op o result = .ok value) :
      Step op ⟨o, .waiting waker (result :: rest) more⟩ move
        ⟨o, if result.hasMore then .waiting waker rest more else .done⟩
        ⟨some (.ok (.ready (some value))), uses, []⟩
  | panics {o : O} {move : Move O E W C} {asker waker : W} {result : RingResult}
      {rest : List RingResult} {more : Bool} {panic : Panic} {uses : List OpUse}
      (hmove : move.asker = some asker) (hdecode : move.decode op o result = .error panic) :
      Step op ⟨o, .waiting waker (result :: rest) more⟩ move ⟨o, .panicked⟩
        ⟨some (.error panic), uses, []⟩
  | ends {o : O} {move : Move O E W C} {asker : W} {uses : List OpUse}
      (hmove : move.asker = some asker) :
      Step op ⟨o, .done⟩ move ⟨o, .done⟩ ⟨some (.ok (.ready none)), uses, []⟩
  | dropsFresh {o : O} {uses : List OpUse} :
      Step op ⟨o, .fresh⟩ .drop ⟨o, .closed false⟩ ⟨none, uses, []⟩
  | dropsDone {o : O} {uses : List OpUse} :
      Step op ⟨o, .done⟩ .drop ⟨o, .closed false⟩ ⟨none, uses, []⟩
  | cancels {o : O} {waker : W} {pending : List RingResult} {more : Bool} {uses : List OpUse} :
      Step op ⟨o, .waiting waker pending more⟩ .drop
        ⟨o, if more then .cancelled (op.cancel o) else .closed false⟩
        ⟨none, uses, pending.map (.consume (op.cancel o)) ++
          if more then [] else [.dropRaw (op.cancel o)]⟩
  | completes {o : O} {waker : W} {pending : List RingResult} {key : Key} {result : RingResult}
      {fill : O → O} {uses : List OpUse} :
      Step op ⟨o, .waiting waker pending true⟩ (.completion key result fill)
        ⟨fill o, .waiting waker (pending ++ [result]) result.hasMore⟩
        ⟨none, uses, [.wake waker]⟩
  | consumes {o : O} {cancel : C} {key : Key} {result : RingResult} {fill : O → O}
      {uses : List OpUse} :
      Step op ⟨o, .cancelled cancel⟩ (.completion key result fill)
        ⟨fill o, .closed result.hasMore⟩
        ⟨none, uses, [.consume cancel result, .dropRaw cancel]⟩
  | strays {o : O} {key : Key} {result : RingResult} {fill : O → O} {uses : List OpUse}
      {effects : List (Effect W C)} :
      Step op ⟨o, .closed true⟩ (.completion key result fill) ⟨fill o, .closed result.hasMore⟩
        ⟨none, uses, effects⟩
  | others {o : O} {stage : Stage W C} {call : RingCall E W C} {uses : List OpUse} :
      Step op ⟨o, stage⟩ (.others call) ⟨o, stage⟩ ⟨none, uses, []⟩

/-! ## A life follows its course -/

/-- Unread results announce one another; the last announces what may still come. -/
def Announced : List RingResult → Bool → Prop
  | [], more => more = true
  | result :: rest, more =>
      result.hasMore = true ∧ Announced rest more ∨
        result.hasMore = false ∧ rest = [] ∧ more = false

theorem Announced.snoc {pending : List RingResult} (h : Announced pending true)
    (result : RingResult) : Announced (pending ++ [result]) result.hasMore := by
  induction pending with
  | nil =>
      cases hmore : result.hasMore with
      | true => exact Or.inl ⟨hmore, rfl⟩
      | false => exact Or.inr ⟨hmore, rfl, rfl⟩
  | cons first rest ih =>
      rcases h with ⟨hmore, hrest⟩ | ⟨-, -, hnone⟩
      · exact Or.inl ⟨hmore, ih hrest⟩
      · exact Bool.noConfusion hnone

theorem Announced.remaining {pending : List RingResult} {more : Bool}
    (h : Announced pending more) :
    (Mailbox.remaining pending more : Option (Mailbox C)) = some (.live pending more) := by
  cases pending with
  | nil =>
      rw [show more = true from h]
      rfl
  | cons result rest => rfl

/-- A life is at a stage. -/
def Stage.Of (life : Lifetime O E W C) : Stage W C → Prop
  | .fresh => life.phase = .held ∧ life.submission.state = .initial ∧ life.owed = true
  | .waiting waker pending more => life.phase = .held ∧ life.owed = more ∧
      Announced pending more ∧ ∃ key, life.submission.state = .submitted key ∧
        life.ring.completions.mailbox key.asUsize = some (.live pending more) ∧
        (more = true → life.ring.completions.waker key.asUsize = some waker)
  | .done => life.phase = .held ∧ life.submission.state = .completed
  | .cancelled cancel => life.phase = .dropped ∧ life.owed = true ∧
      ∃ key, life.submission.state = .submitted key ∧
        life.ring.completions.mailbox key.asUsize = some (.cancelled cancel)
  | .closed owed => life.phase = .dropped ∧
      ∀ key, life.submission.state = .submitted key → life.owed = owed
  | .panicked => life.phase = .panicked ∧ life.submission.state = .initial

structure Course.Of (life : Lifetime O E W C) (course : Course O W C) : Prop where
  wf : life.ring.completions.Wf
  op : life.submission.op = course.op
  stage : course.stage.Of life

namespace Course.Of

variable {op : MultiOp O E Out C} {life life' : Lifetime O E W C} {course : Course O W C}
  {outcome : Outcome Out W C} {slot : Nat} {waker : W}

theorem eq_fresh (h : course.Of life) (hheld : life.phase = .held)
    (hstate : life.submission.state = .initial) :
    course = ⟨life.submission.op, .fresh⟩ ∧ life.owed = true := by
  obtain ⟨o, stage⟩ := course
  obtain rfl : life.submission.op = o := h.op
  have hstage := h.stage
  cases stage <;> simp_all [Stage.Of]

theorem eq_waiting {key : Key} (h : course.Of life) (hheld : life.phase = .held)
    (hstate : life.submission.state = .submitted key) :
    ∃ waker pending, course = ⟨life.submission.op, .waiting waker pending life.owed⟩ ∧
      Announced pending life.owed ∧
      life.ring.completions.mailbox key.asUsize = some (.live pending life.owed) ∧
      (life.owed = true → life.ring.completions.waker key.asUsize = some waker) := by
  obtain ⟨o, stage⟩ := course
  obtain rfl : life.submission.op = o := h.op
  have hstage := h.stage
  cases stage with
  | waiting waker pending more =>
      obtain ⟨-, rfl, hannounced, key', hstate', hbox, hwaker⟩ := hstage
      obtain rfl := SubmissionState.submitted.inj (hstate.symm.trans hstate')
      exact ⟨waker, pending, rfl, hannounced, hbox, hwaker⟩
  | _ => simp_all [Stage.Of]

theorem eq_done (h : course.Of life) (hheld : life.phase = .held)
    (hstate : life.submission.state = .completed) :
    course = ⟨life.submission.op, .done⟩ := by
  obtain ⟨o, stage⟩ := course
  obtain rfl : life.submission.op = o := h.op
  have hstage := h.stage
  cases stage <;> simp_all [Stage.Of]

theorem submitted {ring' : Ring E W C} {request : E} {o : O} {key : Key} (h : course.Of life)
    (hheld : life.phase = .held) (hstate : life.submission.state = .initial)
    (hadmits : life.ring.completions.slab.admits slot = true)
    (hlen : life.ring.completions.slab.len < 2 ^ 32)
    (hsubmit : life.ring.submit request slot waker = .ok (key, ring')) :
    course = ⟨life.submission.op, .fresh⟩ ∧
      Course.Of ⟨⟨o, .submitted key⟩, ring', life.phase, life.owed⟩
        ⟨o, .waiting waker [] true⟩ := by
  obtain ⟨hfresh, howed⟩ := h.eq_fresh hheld hstate
  obtain ⟨hwf, hbox, hwaker, -⟩ := Ring.submit_spec h.wf hadmits hlen hsubmit
  rw [hheld, howed]
  exact ⟨hfresh, hwf, rfl, rfl, rfl, rfl, key, rfl, hbox, fun _ => hwaker⟩

theorem checked {o : O} {key : Key} {pending rest : List RingResult}
    {ran : Ran (Option RingResult) (Ring E W C) W C} (hwf : life.ring.completions.Wf)
    (hannounced : Announced rest life.owed)
    (hbox : life.ring.completions.mailbox key.asUsize = some (.live pending life.owed))
    (hwaker : life.owed = true → life.ring.completions.waker key.asUsize = some waker)
    (hcheck : life.ring.checkResult key = .ok ran) (htail : pending.tail = rest) :
    Course.Of ⟨⟨o, .submitted key⟩, ran.state, .held, life.owed⟩
      ⟨o, .waiting waker rest life.owed⟩ := by
  obtain ⟨-, hupd⟩ := Ring.checkResult_spec hwf hbox hcheck
  rw [htail, hannounced.remaining] at hupd
  refine ⟨hupd.wf, rfl, rfl, rfl, hannounced, key, rfl, hupd.here, fun howed => ?_⟩
  rw [hupd.waker rest (by rw [howed])]
  exact hwaker howed

theorem answered {o : O} {key : Key} {result : RingResult} {rest : List RingResult}
    {ran : Ran (Option RingResult) (Ring E W C) W C} (hwf : life.ring.completions.Wf)
    (hannounced : Announced (result :: rest) life.owed)
    (hbox : life.ring.completions.mailbox key.asUsize = some (.live (result :: rest) life.owed))
    (hwaker : life.owed = true → life.ring.completions.waker key.asUsize = some waker)
    (hcheck : life.ring.checkResult key = .ok ran) :
    Course.Of ⟨⟨o, if result.hasMore then .submitted key else .completed⟩, ran.state, .held,
        life.owed⟩
      ⟨o, if result.hasMore then .waiting waker rest life.owed else .done⟩ := by
  rcases hannounced with ⟨hmore, hrest⟩ | ⟨hmore, -, -⟩
  · rw [hmore]
    exact checked hwf hrest hbox hwaker hcheck rfl
  · rw [hmore]
    obtain ⟨-, hupd⟩ := Ring.checkResult_spec hwf hbox hcheck
    exact ⟨hupd.wf, rfl, rfl, rfl⟩

theorem poll (h : course.Of life) (hcan : life.canPoll slot = true)
    (hfits : life.fits (.poll slot waker) = true)
    (hok : life.exec op (.poll slot waker) = .ok (life', outcome)) :
    ∃ course', Step op course (.poll slot waker) course' outcome ∧ course'.Of life' := by
  simp only [Lifetime.canPoll, Bool.and_eq_true, beq_iff_eq, Bool.or_eq_true, bne_iff_ne] at hcan
  obtain ⟨hheld, hadmits⟩ := hcan
  obtain ⟨polled, hpoll, hret⟩ := bind_eq_ok hok
  obtain ⟨rfl, rfl⟩ := Prod.mk.inj (Except.ok.inj hret)
  rcases Submission.poll_eq_ok hpoll with ⟨hstate, key, ring', hsubmit, rfl⟩ |
    ⟨key, ran, hstate, hcheck, rfl⟩
  · have hlen : life.ring.completions.slab.len < 2 ^ 32 := by
      simpa [Lifetime.fits, hstate] using hfits
    obtain ⟨rfl, hof⟩ :=
      h.submitted hheld hstate (hadmits.resolve_left (by simp [hstate])) hlen hsubmit
    exact ⟨_, .submits rfl, hof⟩
  · obtain ⟨stored, pending, rfl, hannounced, hbox, hwaker⟩ := h.eq_waiting hheld hstate
    obtain ⟨hvalue, -⟩ := Ring.checkResult_spec h.wf hbox hcheck
    rw [hvalue]
    cases pending with
    | nil =>
        refine ⟨_, .waits rfl, ?_⟩
        simpa only [Lifetime.settled_ok, hheld, List.head?_nil, Submission.answered] using
          checked h.wf hannounced hbox hwaker hcheck rfl
    | cons result rest =>
        cases hdecode : op.result life.submission.op result with
        | error panic =>
            obtain ⟨-, hupd⟩ := Ring.checkResult_spec h.wf hbox hcheck
            simp only [List.head?_cons, Submission.answered, hdecode, Lifetime.settled_error]
            exact ⟨_, .panics rfl hdecode, hupd.wf, rfl, rfl, rfl⟩
        | ok value =>
            simp only [List.head?_cons, Submission.answered, hdecode]
            refine ⟨_, .answers rfl hdecode, ?_⟩
            simpa only [Lifetime.settled_ok, hheld] using
              answered h.wf hannounced hbox hwaker hcheck

theorem pollNext (h : course.Of life) (hcan : life.canPoll slot = true)
    (hfits : life.fits (.pollNext slot waker) = true)
    (hok : life.exec op (.pollNext slot waker) = .ok (life', outcome)) :
    ∃ course', Step op course (.pollNext slot waker) course' outcome ∧ course'.Of life' := by
  simp only [Lifetime.canPoll, Bool.and_eq_true, beq_iff_eq, Bool.or_eq_true, bne_iff_ne] at hcan
  obtain ⟨hheld, hadmits⟩ := hcan
  obtain ⟨polled, hpoll, hret⟩ := bind_eq_ok hok
  obtain ⟨rfl, rfl⟩ := Prod.mk.inj (Except.ok.inj hret)
  rcases Submission.pollNext_eq_ok hpoll with ⟨hstate, key, ring', hsubmit, rfl⟩ |
    ⟨key, ran, hstate, hcheck, rfl⟩ | ⟨hstate, rfl⟩
  · have hlen : life.ring.completions.slab.len < 2 ^ 32 := by
      simpa [Lifetime.fits, hstate] using hfits
    obtain ⟨rfl, hof⟩ :=
      h.submitted hheld hstate (hadmits.resolve_left (by simp [hstate])) hlen hsubmit
    exact ⟨_, .submits rfl, hof⟩
  · obtain ⟨stored, pending, rfl, hannounced, hbox, hwaker⟩ := h.eq_waiting hheld hstate
    obtain ⟨hvalue, -⟩ := Ring.checkResult_spec h.wf hbox hcheck
    rw [hvalue]
    cases pending with
    | nil =>
        refine ⟨_, .waits rfl, ?_⟩
        simpa only [Lifetime.settled_ok, hheld, List.head?_nil, Submission.answeredNext] using
          checked h.wf hannounced hbox hwaker hcheck rfl
    | cons result rest =>
        cases hdecode : op.next life.submission.op result with
        | error panic =>
            obtain ⟨-, hupd⟩ := Ring.checkResult_spec h.wf hbox hcheck
            simp only [List.head?_cons, Submission.answeredNext, hdecode, Lifetime.settled_error]
            exact ⟨_, .panics rfl hdecode, hupd.wf, rfl, rfl, rfl⟩
        | ok value =>
            simp only [List.head?_cons, Submission.answeredNext, hdecode]
            refine ⟨_, .answers rfl hdecode, ?_⟩
            simpa only [Lifetime.settled_ok, hheld] using
              answered h.wf hannounced hbox hwaker hcheck
  · obtain rfl := h.eq_done hheld hstate
    refine ⟨_, .ends rfl, h.wf, rfl, ?_⟩
    exact ⟨by simp [hheld], hstate⟩

theorem drop (h : course.Of life) (hheld : life.phase = .held)
    (hok : life.exec op .drop = .ok (life', outcome)) :
    ∃ course', Step op course .drop course' outcome ∧ course'.Of life' := by
  obtain ⟨ran, hdrop, hret⟩ := bind_eq_ok hok
  obtain ⟨rfl, rfl⟩ := Prod.mk.inj (Except.ok.inj hret)
  rcases Submission.drop_eq_ok hdrop with ⟨hstate, rfl⟩ | ⟨key, done, hstate, hcancel, rfl⟩ |
    ⟨hstate, rfl⟩
  · obtain ⟨rfl, -⟩ := h.eq_fresh hheld hstate
    exact ⟨_, .dropsFresh, h.wf, rfl, rfl, by simp [hstate]⟩
  · obtain ⟨stored, pending, rfl, hannounced, hbox, -⟩ := h.eq_waiting hheld hstate
    obtain ⟨heffects, hupd⟩ := Ring.cancel_spec h.wf hbox hcancel
    rw [heffects]
    refine ⟨_, .cancels, hupd.wf, rfl, ?_⟩
    cases howed : life.owed with
    | true =>
        rw [howed] at hupd
        exact ⟨rfl, rfl, key, hstate, hupd.here⟩
    | false => exact ⟨rfl, fun _ _ => rfl⟩
  · obtain rfl := h.eq_done hheld hstate
    exact ⟨_, .dropsDone, h.wf, rfl, rfl, by simp [hstate]⟩

/-- A completion of a waiting submission is handled, and wakes the waker kept with
the mailbox. -/
theorem completed (op : MultiOp O E Out C) {key : Key} (result : RingResult) (fill : O → O)
    (h : course.Of life)
    (hheld : life.phase = .held) (hstate : life.submission.state = .submitted key)
    (howed : life.owed = true) :
    ∃ waker pending life', course = ⟨life.submission.op, .waiting waker pending true⟩ ∧
      life.exec op (.completion key result fill) = .ok (life', ⟨none, [], [.wake waker]⟩) ∧
      Course.Of life' ⟨fill life.submission.op,
        .waiting waker (pending ++ [result]) result.hasMore⟩ := by
  obtain ⟨stored, pending, rfl, hannounced, hbox, hwaker⟩ := h.eq_waiting hheld hstate
  rw [howed] at hannounced hbox ⊢
  obtain ⟨waker, set, hstored, hnotify, hupd⟩ := CompletionSet.notify_live h.wf hbox result
  obtain rfl : waker = stored := Option.some.inj (hstored.symm.trans (hwaker howed))
  have hexec : life.exec op (.completion key result fill) = .ok
      ({ life with
          submission := { life.submission with op := fill life.submission.op },
          ring := { life.ring with
            active := if result.hasMore then life.ring.active else life.ring.active - 1,
            completions := set },
          owed := result.hasMore }, ⟨none, [], [.wake waker]⟩) := by
    simp only [Lifetime.exec, Ring.handleCompletion_key, hnotify, bind, Except.bind, pure,
      Except.pure]
  refine ⟨waker, pending, _, rfl, hexec, hupd.wf, rfl, hheld, rfl, hannounced.snoc result, key,
    hstate, hupd.here, fun hmore => ?_⟩
  rw [← hstored]
  exact hupd.waker _ (by rw [hmore])

theorem completion {streams : Bool} {key : Key} {result : RingResult} {fill : O → O}
    (h : course.Of life) (hpermits : life.permits streams (.completion key result fill) = true)
    (hok : life.exec op (.completion key result fill) = .ok (life', outcome)) :
    ∃ course', Step op course (.completion key result fill) course' outcome ∧
      course'.Of life' := by
  simp only [Lifetime.permits, Bool.and_eq_true, beq_iff_eq] at hpermits
  obtain ⟨hstate, howed⟩ := hpermits
  cases hphase : life.phase with
  | held =>
      obtain ⟨waker, pending, _, rfl, hok', hof⟩ :=
        h.completed op result fill hphase hstate howed
      obtain ⟨rfl, rfl⟩ := Prod.mk.inj (Except.ok.inj (hok'.symm.trans hok))
      exact ⟨_, .completes, hof⟩
  | dropped =>
      obtain ⟨ran, hhandle, hret⟩ := bind_eq_ok hok
      obtain ⟨rfl, rfl⟩ := Prod.mk.inj (Except.ok.inj hret)
      obtain ⟨notified, hnotify, hran⟩ :=
        bind_eq_ok ((Ring.handleCompletion_key _ _ _).symm.trans hhandle)
      obtain rfl := Except.ok.inj hran
      obtain ⟨o, stage⟩ := course
      obtain rfl : life.submission.op = o := h.op
      have hstage := h.stage
      cases stage with
      | cancelled cancel =>
          obtain ⟨-, -, key', hstate', hbox⟩ := hstage
          obtain rfl := SubmissionState.submitted.inj (hstate.symm.trans hstate')
          obtain ⟨set, hnotify', hupd⟩ := CompletionSet.notify_cancelled h.wf hbox result
          obtain rfl := Except.ok.inj (hnotify'.symm.trans hnotify)
          exact ⟨_, .consumes, hupd.wf, rfl, hphase, fun _ _ => rfl⟩
      | closed owed =>
          obtain rfl : owed = true := (hstage.2 key hstate).symm.trans howed
          obtain ⟨box, hupd⟩ := CompletionSet.notify_updates h.wf hnotify
          exact ⟨_, .strays, hupd.wf, rfl, hphase, fun _ _ => rfl⟩
      | _ => simp_all [Stage.Of]
  | panicked =>
      have hstage := h.stage
      cases hcourse : course.stage <;> rw [hcourse] at hstage <;> simp_all [Stage.Of]

theorem others {streams : Bool} {call : RingCall E W C} (h : course.Of life)
    (hpermits : life.permits streams (.others call) = true)
    (hfits : life.fits (.others call) = true)
    (hok : life.exec op (.others call) = .ok (life', outcome)) :
    ∃ course', Step op course (.others call) course' outcome ∧ course'.Of life' := by
  obtain ⟨ring', hrun, hret⟩ := bind_eq_ok hok
  obtain ⟨rfl, rfl⟩ := Prod.mk.inj (Except.ok.inj hret)
  simp only [Lifetime.permits, Bool.and_eq_true] at hpermits
  obtain ⟨hadmitted, hown⟩ := hpermits
  obtain ⟨hwf, hframe⟩ := RingCall.run_spec h.wf hadmitted hfits hrun
  have hkeep : ∀ key, life.ownKey = some key →
      life.ring.completions.mailbox key.asUsize ≠ none →
      ring'.completions.mailbox key.asUsize = life.ring.completions.mailbox key.asUsize ∧
      ring'.completions.waker key.asUsize = life.ring.completions.waker key.asUsize := by
    intro key hkey hbox
    refine hframe key.asUsize hbox fun key' hcall heq => ?_
    rw [hkey, hcall, Key.asUsize_inj.mp heq] at hown
    simp at hown
  refine ⟨course, .others, hwf, h.op, ?_⟩
  have hstage := h.stage
  cases hcourse : course.stage <;> rw [hcourse] at hstage
  case waiting waker pending more =>
    obtain ⟨hheld, howed, hannounced, key, hstate, hbox, hwaker⟩ := hstage
    obtain ⟨hbox', hwaker'⟩ := hkeep key (by simp [Lifetime.ownKey, hstate, hheld]) (by simp [hbox])
    exact ⟨hheld, howed, hannounced, key, hstate, hbox'.trans hbox,
      fun hmore => hwaker'.trans (hwaker hmore)⟩
  case cancelled cancel =>
    obtain ⟨hphase, howed, key, hstate, hbox⟩ := hstage
    obtain ⟨hbox', -⟩ := hkeep key (by simp [Lifetime.ownKey, hstate, howed]) (by simp [hbox])
    exact ⟨hphase, howed, key, hstate, hbox'.trans hbox⟩
  all_goals exact hstage

/-- Every move of a life is a move of its course. -/
theorem step {streams : Bool} {move : Move O E W C} (h : course.Of life)
    (hpermits : life.permits streams move = true) (hfits : life.fits move = true)
    (hok : life.exec op move = .ok (life', outcome)) :
    ∃ course', Step op course move course' outcome ∧ course'.Of life' := by
  cases move with
  | poll slot waker => exact h.poll hpermits hfits hok
  | pollNext slot waker =>
      simp only [Lifetime.permits, Bool.and_eq_true] at hpermits
      exact h.pollNext hpermits.2 hfits hok
  | drop => exact h.drop (by simpa [Lifetime.permits] using hpermits) hok
  | completion key result fill => exact h.completion hpermits hok
  | others call => exact h.others hpermits hfits hok

end Course.Of

theorem Lifetime.fresh_of (value : O) (options : RingOptions) (entries : Nat) :
    (⟨value, .fresh⟩ : Course O W C).Of (fresh value options entries : Lifetime O E W C) :=
  ⟨CompletionSet.withCapacity_wf options.submissions.toNat, rfl, rfl, rfl, rfl⟩

end Inel.Reactor
