import Inel.Executor.Run

/-!
# References to tasks

Who holds a reference is tracked beside the counts, so that each operation can be
checked by itself: the queue, the wakers and whoever is in the middle of something.
-/

namespace Inel.Tasks

namespace Executor

variable {T : Type}

/-- The tasks whose sender is still there. -/
def alive (s : Executor T) : Finset TaskId :=
  (Finset.range s.born).filter fun id => (s.task id).stage ≠ .freed

/-- What holds while someone in the middle of something has the references of
`held`: a task's count is the number of references to it, its flag says whether it
is queued, and it has its sender until its future was dropped. -/
structure Counted (s : Executor T) (held : List TaskId) : Prop where
  nodup : s.queue.Nodup
  flag : ∀ id < s.born, ((s.task id).scheduled = true ↔ id ∈ s.queue)
  known : ∀ id ∈ s.queue ++ s.wakers ++ held, id < s.born
  strong : ∀ id < s.born, (s.task id).strong = (s.queue ++ s.wakers ++ held).count id
  live : ∀ id < s.born, ((s.task id).stage = .live ↔ 0 < (s.task id).strong)
  senders : s.senders = 1 + s.alive.card

variable {s : Executor T} {held : List TaskId} {id : TaskId}

@[simp] theorem task_update (s : Executor T) (id : TaskId) (f : Task T → Task T) :
    (s.update id f).task = Function.update s.task id (f (s.task id)) := rfl

theorem update_other (f : Task T → Task T) {other : TaskId} (h : other ≠ id) :
    (s.update id f).task other = s.task other := Function.update_of_ne h _ _

@[simp] theorem update_born (s : Executor T) (id : TaskId) (f : Task T → Task T) :
    (s.update id f).born = s.born := rfl

@[simp] theorem update_queue (s : Executor T) (id : TaskId) (f : Task T → Task T) :
    (s.update id f).queue = s.queue := rfl

@[simp] theorem update_wakers (s : Executor T) (id : TaskId) (f : Task T → Task T) :
    (s.update id f).wakers = s.wakers := rfl

@[simp] theorem update_senders (s : Executor T) (id : TaskId) (f : Task T → Task T) :
    (s.update id f).senders = s.senders := rfl

theorem Counted.live_of_mem (h : s.Counted held) (hid : id ∈ s.queue ++ s.wakers ++ held) :
    (s.task id).stage = .live := by
  have hlt := h.known id hid
  apply (h.live id hlt).mpr
  rw [h.strong id hlt]
  exact List.count_pos_iff.mpr hid

theorem Counted.perm {s' : Executor T} {held' : List TaskId} (h : s.Counted held)
    (htask : s'.task = s.task) (hborn : s'.born = s.born) (hsenders : s'.senders = s.senders)
    (hqueue : s'.queue = s.queue)
    (hperm : (s'.wakers ++ held').Perm (s.wakers ++ held)) : s'.Counted held' := by
  have hall : (s'.queue ++ s'.wakers ++ held').Perm (s.queue ++ s.wakers ++ held) := by
    rw [hqueue, List.append_assoc, List.append_assoc]
    exact hperm.append_left s.queue
  constructor
  · rw [hqueue]
    exact h.nodup
  · rw [htask, hborn, hqueue]
    exact h.flag
  · rw [hborn]
    exact fun other hother => h.known other (hall.mem_iff.mp hother)
  · rw [htask, hborn]
    exact fun other hother => (h.strong other hother).trans (hall.count_eq other).symm
  · rw [htask, hborn]
    exact h.live
  · unfold alive
    rw [hsenders, htask, hborn]
    exact h.senders

/-- One task changes, with its place in the queue and the references to it. -/
theorem Counted.change {s' : Executor T} {held' : List TaskId} {task : Task T}
    (h : s.Counted held) (hlt : id < s.born)
    (htask : s'.task = Function.update s.task id task) (hborn : s'.born = s.born)
    (hsenders : s'.senders = s.senders)
    (hfreed : task.stage ≠ .freed ↔ (s.task id).stage ≠ .freed) (hnodup : s'.queue.Nodup)
    (hflag : task.scheduled = true ↔ id ∈ s'.queue)
    (hstrong : task.strong = (s'.queue ++ s'.wakers ++ held').count id)
    (hlive : task.stage = .live ↔ 0 < task.strong)
    (hqueue : ∀ other ≠ id, (other ∈ s'.queue ↔ other ∈ s.queue))
    (hcount : ∀ other ≠ id, (s'.queue ++ s'.wakers ++ held').count other =
      (s.queue ++ s.wakers ++ held).count other) : s'.Counted held' := by
  have hsame : s'.task id = task := by rw [htask, Function.update_self]
  have hother : ∀ other ≠ id, s'.task other = s.task other := by
    intro other heq
    rw [htask, Function.update_of_ne heq]
  constructor
  · exact hnodup
  · intro other hlt'
    by_cases heq : other = id
    · rw [heq, hsame]
      exact hflag
    · rw [hother other heq, hqueue other heq]
      exact h.flag other (hborn ▸ hlt')
  · intro other hmem
    rw [hborn]
    by_cases heq : other = id
    · exact heq ▸ hlt
    · apply h.known other
      rw [← List.count_pos_iff] at hmem ⊢
      rwa [hcount other heq] at hmem
  · intro other hlt'
    by_cases heq : other = id
    · rw [heq, hsame]
      exact hstrong
    · rw [hother other heq, hcount other heq]
      exact h.strong other (hborn ▸ hlt')
  · intro other hlt'
    by_cases heq : other = id
    · rw [heq, hsame]
      exact hlive
    · rw [hother other heq]
      exact h.live other (hborn ▸ hlt')
  · have halive : s'.alive = s.alive := by
      unfold alive
      rw [hborn]
      apply Finset.filter_congr
      intro other _
      by_cases heq : other = id
      · rw [heq, hsame]
        exact hfreed
      · rw [hother other heq]
    rw [hsenders, halive]
    exact h.senders

theorem Counted.rcClone (h : s.Counted held) (hid : id ∈ s.queue ++ s.wakers ++ held) :
    (s.rcClone id).Counted (id :: held) := by
  have hlt := h.known id hid
  have hstrong := h.strong id hlt
  have hlive := h.live_of_mem hid
  refine h.change hlt rfl rfl rfl Iff.rfl h.nodup (h.flag id hlt) ?_ ?_ ?_ ?_
  · show (s.task id).strong + 1 = (s.queue ++ s.wakers ++ id :: held).count id
    rw [List.count_append] at hstrong ⊢
    rw [List.count_cons_self]
    omega
  · show (s.task id).stage = .live ↔ 0 < (s.task id).strong + 1
    simp [hlive]
  · exact fun other _ => Iff.rfl
  · intro other hother
    show (s.queue ++ s.wakers ++ id :: held).count other = _
    simp only [List.count_append, List.count_cons_of_ne (Ne.symm hother)]

theorem Counted.rcDrop (h : s.Counted (id :: held)) : (s.rcDrop id).Counted held := by
  have hmem : id ∈ s.queue ++ s.wakers ++ id :: held := by simp
  have hlt := h.known id hmem
  have hstrong := h.strong id hlt
  have hlive := h.live_of_mem hmem
  have hpos := (h.live id hlt).mp hlive
  refine h.change hlt rfl rfl rfl ?_ h.nodup (h.flag id hlt) ?_ ?_ ?_ ?_
  · show (if (s.task id).strong = 1 then Stage.dropping else (s.task id).stage) ≠ .freed ↔ _
    split <;> simp [hlive]
  · show (s.task id).strong - 1 = (s.queue ++ s.wakers ++ held).count id
    rw [List.count_append, List.count_cons_self] at hstrong
    rw [List.count_append]
    omega
  · show (if (s.task id).strong = 1 then Stage.dropping else (s.task id).stage) = .live ↔
      0 < (s.task id).strong - 1
    split
    · next hone => simp [hone]
    · next hone =>
        simp only [hlive, true_iff]
        omega
  · exact fun other _ => Iff.rfl
  · intro other hother
    show (s.queue ++ s.wakers ++ held).count other = _
    simp only [List.count_append, List.count_cons_of_ne (Ne.symm hother)]

theorem schedule_of_not (h : (s.task id).scheduled = false) :
    s.schedule id = { s.update id fun task =>
      { task with scheduled := true, strong := task.strong + 1 } with
        queue := s.queue ++ [id] } := by
  simp [Executor.schedule, h, Executor.rcClone, Executor.update]

theorem Counted.schedule (h : s.Counted held) (hid : id ∈ s.queue ++ s.wakers ++ held) :
    (s.schedule id).Counted held ∧ id ∈ (s.schedule id).queue := by
  have hlt := h.known id hid
  have hstrong := h.strong id hlt
  have hlive := h.live_of_mem hid
  cases hflag : (s.task id).scheduled with
  | true =>
      rw [Executor.schedule, if_pos hflag]
      exact ⟨h, (h.flag id hlt).mp hflag⟩
  | false =>
      have hout : id ∉ s.queue := by
        intro hin
        rw [(h.flag id hlt).mpr hin] at hflag
        exact Bool.noConfusion hflag
      rw [schedule_of_not hflag]
      constructor
      · refine h.change hlt rfl rfl rfl Iff.rfl ?_ ?_ ?_ ?_ ?_ ?_
        · show (s.queue ++ [id]).Nodup
          exact List.nodup_append.mpr ⟨h.nodup, List.nodup_singleton id, by
            intro other hother
            simp only [List.mem_singleton, forall_eq]
            exact fun heq => hout (heq ▸ hother)⟩
        · show true = true ↔ id ∈ s.queue ++ [id]
          simp
        · show (s.task id).strong + 1 = (s.queue ++ [id] ++ s.wakers ++ held).count id
          simp only [List.count_append, List.count_singleton_self] at hstrong ⊢
          omega
        · show (s.task id).stage = .live ↔ 0 < (s.task id).strong + 1
          simp [hlive]
        · intro other hother
          show other ∈ s.queue ++ [id] ↔ _
          simp [hother]
        · intro other hother
          show (s.queue ++ [id] ++ s.wakers ++ held).count other = _
          simp only [List.count_append, List.count_singleton, beq_iff_eq, Ne.symm hother,
            if_false, Nat.add_zero]
      · show id ∈ s.queue ++ [id]
        simp

/-- A task leaves the queue with its flag cleared, into the hands of the loop. -/
theorem Counted.pop {queue : List TaskId} (h : s.Counted held) (hqueue : s.queue = id :: queue) :
    Counted { s.update id fun task => { task with scheduled := false } with queue := queue }
      (id :: held) := by
  have hmem : id ∈ s.queue ++ s.wakers ++ held := by simp [hqueue]
  have hlt := h.known id hmem
  have hstrong := h.strong id hlt
  have hnodup := h.nodup
  rw [hqueue, List.nodup_cons] at hnodup
  refine h.change hlt rfl rfl rfl Iff.rfl hnodup.2 ?_ ?_ (h.live id hlt) ?_ ?_
  · show false = true ↔ id ∈ queue
    simp [hnodup.1]
  · show (s.task id).strong = (queue ++ s.wakers ++ id :: held).count id
    rw [hqueue] at hstrong
    simp only [List.count_append, List.count_cons_self] at hstrong ⊢
    omega
  · intro other hother
    rw [hqueue]
    simp [hother]
  · intro other hother
    rw [hqueue]
    simp only [update_wakers, List.count_append, List.count_cons_of_ne (Ne.symm hother)]

theorem Counted.ofWakers (h : s.Counted held) (hid : id ∈ s.wakers) :
    Counted { s with wakers := s.wakers.erase id } (id :: held) := by
  refine h.perm rfl rfl rfl rfl ?_
  apply List.perm_middle.trans
  exact ((List.perm_cons_erase hid).append_right held).symm

theorem Counted.toWakers (h : s.Counted (id :: held)) :
    Counted { s with wakers := id :: s.wakers } held :=
  h.perm rfl rfl rfl rfl List.perm_middle.symm

theorem Counted.allocate (h : s.Counted held) (task : Task T) (hflag : task.scheduled = false)
    (hstrong : task.strong = 1) (hstage : task.stage = .live) :
    (s.allocate task).Counted (s.born :: held) := by
  have hnew : s.born ∉ s.queue ++ s.wakers ++ held := fun hmem =>
    Nat.lt_irrefl _ (h.known s.born hmem)
  have hsame : (s.allocate task).task s.born = task := Function.update_self ..
  have hothers : ∀ id ≠ s.born, (s.allocate task).task id = s.task id := fun id hid =>
    Function.update_of_ne hid _ _
  have hold : ∀ id < (s.allocate task).born, id ≠ s.born → id < s.born := by
    intro id hlt hid
    exact Nat.lt_of_le_of_ne (Nat.lt_succ_iff.mp hlt) hid
  constructor
  · exact h.nodup
  · intro id hlt
    by_cases hid : id = s.born
    · rw [hid, hsame, hflag]
      simp only [Bool.false_eq_true, false_iff]
      exact fun hmem => hnew (List.mem_append_left _ (List.mem_append_left _ hmem))
    · rw [hothers id hid]
      exact h.flag id (hold id hlt hid)
  · intro id hmem
    apply Nat.lt_succ_of_le
    by_cases hid : id = s.born
    · exact Nat.le_of_eq hid
    · apply Nat.le_of_lt
      apply h.known id
      rw [← List.count_pos_iff] at hmem ⊢
      rw [List.count_append, List.count_cons_of_ne (Ne.symm hid)] at hmem
      rwa [List.count_append]
  · intro id hlt
    show _ = (s.queue ++ s.wakers ++ s.born :: held).count id
    by_cases hid : id = s.born
    · have hzero := List.count_eq_zero.mpr hnew
      rw [hid, hsame, hstrong]
      simp only [List.count_append, List.count_cons_self] at hzero ⊢
      omega
    · rw [hothers id hid, h.strong id (hold id hlt hid)]
      simp only [List.count_append, List.count_cons_of_ne (Ne.symm hid)]
  · intro id hlt
    by_cases hid : id = s.born
    · rw [hid, hsame, hstage, hstrong]
      simp
    · rw [hothers id hid]
      exact h.live id (hold id hlt hid)
  · have halive : (s.allocate task).alive = insert s.born s.alive := by
      show (Finset.range (s.born + 1)).filter _ = _
      rw [Finset.range_add_one, Finset.filter_insert, if_pos (by simp [hsame, hstage])]
      congr 1
      apply Finset.filter_congr
      intro id hid
      rw [hothers id (Nat.ne_of_lt (Finset.mem_range.mp hid))]
    have hout : s.born ∉ s.alive := by simp [alive]
    have hsenders := h.senders
    rw [halive, Finset.card_insert_of_notMem hout]
    show s.senders + 1 = _
    omega

/-- A new task is queued, and only the queue refers to it. -/
theorem Counted.scheduleNew (h : s.Counted held) (blocking : Bool) :
    (s.scheduleNew blocking).Counted held := by
  have hmade := h.allocate ⟨false, 1, .live, .incomplete, ⟨none, 0, true⟩, blocking⟩ rfl rfl rfl
  exact (hmade.schedule (List.mem_append_right _ List.mem_cons_self)).1.rcDrop

/-! ## The parts of a step -/

theorem Counted.wakerClone (h : s.Counted held) (hid : id ∈ s.queue ++ s.wakers ++ held) :
    (s.wakerClone id).Counted held := (h.rcClone hid).toWakers

theorem Counted.wake (h : s.Counted held) (hid : id ∈ s.wakers) :
    (s.wake id).Counted held ∧ id ∈ (s.wake id).queue := by
  have hmem : id ∈ s.queue ++ s.wakers.erase id ++ id :: held := by simp
  obtain ⟨hcounted, hqueued⟩ := (h.ofWakers hid).schedule hmem
  exact ⟨hcounted.rcDrop, hqueued⟩

theorem Counted.wakerDrop (h : s.Counted held) (hid : id ∈ s.wakers) :
    (s.wakerDrop id).Counted held := (h.ofWakers hid).rcDrop

/-- The flag is cleared before the future is polled, and the reference that was
the queue's is the loop's. -/
theorem Counted.next {queue : List TaskId} (h : s.Counted []) (hqueue : s.queue = id :: queue) :
    s.next.Counted [id, id] ∧ s.next.queue = queue ∧ s.next.phase = .polling id := by
  have hnext : s.next = { Executor.rcClone { s.update id fun task =>
      { task with scheduled := false } with queue := queue } id with phase := .polling id } := by
    simp [Executor.next, hqueue, Executor.rcClone, Executor.update]
  rw [hnext]
  have hloop := (h.pop hqueue).rcClone (List.mem_append_right _ List.mem_cons_self)
  exact ⟨hloop.perm rfl rfl rfl rfl (List.Perm.refl _), rfl, rfl⟩

theorem Counted.endPoll (h : s.Counted [id, id]) : (s.endPoll id).Counted [] := by
  exact h.rcDrop.rcDrop.perm rfl rfl rfl rfl (List.Perm.refl _)

theorem Counted.free (h : s.Counted held) (hlt : id < s.born)
    (hid : (s.task id).stage = .dropping) : (s.free id).Counted held := by
  have hzero : ¬ 0 < (s.task id).strong := fun hpos => by
    rw [(h.live id hlt).mpr hpos] at hid
    exact Stage.noConfusion hid
  have hothers : ∀ other ≠ id, (s.free id).task other = s.task other := fun other hother =>
    Function.update_of_ne hother _ _
  have hsame : (s.free id).task id = { s.task id with stage := .freed } :=
    Function.update_self ..
  constructor
  · exact h.nodup
  · intro other hother
    by_cases heq : other = id
    · rw [heq, hsame]
      exact h.flag id hlt
    · rw [hothers other heq]
      exact h.flag other hother
  · exact h.known
  · intro other hother
    by_cases heq : other = id
    · rw [heq, hsame]
      exact h.strong id hlt
    · rw [hothers other heq]
      exact h.strong other hother
  · intro other hother
    by_cases heq : other = id
    · rw [heq, hsame]
      simp [hzero]
    · rw [hothers other heq]
      exact h.live other hother
  · have halive : (s.free id).alive = s.alive.erase id := by
      ext other
      by_cases heq : other = id
      · subst heq
        simp [alive, hsame]
      · simp only [alive, Finset.mem_filter, Finset.mem_erase, hothers other heq, ne_eq, heq,
          not_false_eq_true, true_and]
        exact Iff.rfl
    have hin : id ∈ s.alive := by simp [alive, hlt, hid]
    have hpos := Finset.card_pos.mpr ⟨id, hin⟩
    have hsenders := h.senders
    rw [halive, Finset.card_erase_of_mem hin]
    show s.senders - 1 = _
    omega

theorem Counted.quiet {f : Task T → Task T} (h : s.Counted held) (hlt : id < s.born)
    (hflag : (f (s.task id)).scheduled = (s.task id).scheduled)
    (hstrong : (f (s.task id)).strong = (s.task id).strong)
    (hstage : (f (s.task id)).stage = (s.task id).stage) : (s.update id f).Counted held := by
  refine h.change hlt rfl rfl rfl ?_ h.nodup ?_ ?_ ?_ ?_ ?_
  · rw [hstage]
  · rw [hflag]
    exact h.flag id hlt
  · rw [hstrong]
    exact h.strong id hlt
  · rw [hstage, hstrong]
    exact h.live id hlt
  · exact fun other _ => Iff.rfl
  · exact fun other _ => rfl

/-! ## Steps -/

theorem schedule_phase (s : Executor T) (id : TaskId) : (s.schedule id).phase = s.phase := by
  unfold Executor.schedule
  split <;> rfl

theorem schedule_keeps (s : Executor T) (id : TaskId) :
    ∀ other ∈ s.queue, other ∈ (s.schedule id).queue := by
  intro other hother
  unfold Executor.schedule
  split
  · exact hother
  · exact List.mem_append_left _ hother

def loopRefs (s : Executor T) : List TaskId :=
  match s.phase with
  | .polling id => [id, id]
  | _ => []

theorem mem_of_canBorrow (h : s.canBorrow id = true) :
    id ∈ s.queue ++ s.wakers ++ s.loopRefs := by
  simp only [canBorrow, Bool.or_eq_true, decide_eq_true_eq, beq_iff_eq] at h
  cases h with
  | inl hwaker => exact List.mem_append_left _ (List.mem_append_right _ hwaker)
  | inr hphase =>
      apply List.mem_append_right
      simp [loopRefs, hphase]

/-- What a move may have done when it is over. -/
structure Stepped (s s' : Executor T) (move : Move T) : Prop where
  counted : s'.Counted s'.loopRefs
  /-- A task leaves the queue at its head, to be polled. -/
  leaves : ∀ id ∈ s.queue, id ∉ s'.queue →
    move = .next ∧ s'.phase = .polling id ∧ s.queue.head? = some id
  /-- The reactor is waited for once nothing is queued. -/
  waits : s.phase ≠ .waiting → s'.phase = .waiting → s'.queue = []
  wakes : ∀ id, move = .wake id ∨ move = .wakeByRef id → id ∈ s'.queue

theorem Stepped.called {s' : Executor T} {move : Move T} (hphase : s'.phase = s.phase)
    (hcounted : s'.Counted s.loopRefs) (hkeeps : ∀ id ∈ s.queue, id ∈ s'.queue)
    (hwakes : ∀ id, move = .wake id ∨ move = .wakeByRef id → id ∈ s'.queue) :
    Stepped s s' move where
  counted := by
    unfold loopRefs
    rw [hphase]
    exact hcounted
  leaves := fun id hid hout => absurd (hkeeps id hid) hout
  waits := fun hbefore hafter => absurd (hphase ▸ hafter) hbefore
  wakes := hwakes

theorem Stepped.phase {phase : Phase} {move : Move T} (h : s.Counted s.loopRefs)
    (hrefs : s.loopRefs = []) (hphase : ∀ id, phase ≠ .polling id) (hwaiting : phase ≠ .waiting)
    (hmove : ∀ id, move ≠ .wake id ∧ move ≠ .wakeByRef id) :
    Stepped s { s with phase := phase } move where
  counted := by
    have hrefs' : loopRefs { s with phase := phase } = [] := by
      cases phase with
      | polling id => exact absurd rfl (hphase id)
      | _ => rfl
    rw [hrefs']
    rw [hrefs] at h
    exact h.perm rfl rfl rfl rfl (List.Perm.refl _)
  leaves := fun id hid hout => absurd hid hout
  waits := fun _ hafter => absurd hafter hwaiting
  wakes := by
    intro id hid
    cases hid with
    | inl hwake => exact absurd hwake (hmove id).1
    | inr hwake => exact absurd hwake (hmove id).2

theorem Counted.stepped {move : Move T} (h : s.Counted s.loopRefs)
    (hpermits : s.permits move = true) : Stepped s (s.step move) move := by
  cases move with
  | spawn blocking =>
      refine Stepped.called (schedule_phase _ _) (h.scheduleNew blocking) ?_ ?_
      · exact schedule_keeps (s.allocate _) s.born
      · simp
  | clone id =>
      simp only [permits, Bool.and_eq_true] at hpermits
      refine Stepped.called rfl (h.wakerClone (mem_of_canBorrow hpermits.2)) ?_ ?_
      · exact fun other hother => hother
      · simp
  | wake id =>
      simp only [permits, Bool.and_eq_true, decide_eq_true_eq] at hpermits
      obtain ⟨hcounted, hqueued⟩ := h.wake hpermits.2
      refine Stepped.called (schedule_phase _ _) hcounted ?_ ?_
      · exact schedule_keeps { s with wakers := s.wakers.erase id } id
      · simpa [Executor.step] using hqueued
  | wakeByRef id =>
      simp only [permits, Bool.and_eq_true] at hpermits
      obtain ⟨hcounted, hqueued⟩ := h.schedule (mem_of_canBorrow hpermits.2)
      refine Stepped.called (schedule_phase _ _) hcounted (schedule_keeps s id) ?_
      simpa [Executor.step, Executor.wakeByRef] using hqueued
  | drop id =>
      simp only [permits, Bool.and_eq_true, decide_eq_true_eq] at hpermits
      refine Stepped.called rfl (h.wakerDrop hpermits.2) ?_ ?_
      · exact fun other hother => hother
      · simp
  | tryJoin id =>
      simp only [permits, Bool.and_eq_true, decide_eq_true_eq] at hpermits
      have hcounted : (s.tryJoin id).2.Counted s.loopRefs := by
        unfold Executor.tryJoin
        dsimp only
        exact h.quiet hpermits.1.2 rfl rfl rfl
      refine Stepped.called rfl hcounted ?_ ?_
      · exact fun other hother => hother
      · simp
  | detach id =>
      simp only [permits, Bool.and_eq_true, decide_eq_true_eq] at hpermits
      have hcounted : (s.detach id).Counted s.loopRefs := by
        unfold Executor.detach
        exact h.quiet hpermits.1.2 rfl rfl rfl
      refine Stepped.called rfl hcounted ?_ ?_
      · exact fun other hother => hother
      · simp
  | free id =>
      simp only [permits, Bool.and_eq_true, decide_eq_true_eq, beq_iff_eq] at hpermits
      refine Stepped.called rfl (h.free hpermits.1 hpermits.2) ?_ ?_
      · exact fun other hother => hother
      · simp
  | run =>
      simp only [permits, Bool.and_eq_true, beq_iff_eq] at hpermits
      apply Stepped.phase h <;> simp [loopRefs, hpermits.1]
  | check =>
      simp only [permits, Bool.and_eq_true, beq_iff_eq] at hpermits
      apply Stepped.phase h
      · simp [loopRefs, hpermits.1]
      · intro id
        split <;> simp
      · split <;> simp
      · simp
  | next =>
      simp only [permits, Bool.and_eq_true, beq_iff_eq] at hpermits
      have hrefs : s.loopRefs = [] := by simp [loopRefs, hpermits.1]
      rw [hrefs] at h
      cases hqueue : s.queue with
      | nil =>
          have hnext : s.next = { s with phase := .waiting } := by simp [Executor.next, hqueue]
          rw [Executor.step, hnext]
          constructor
          · exact h.perm rfl rfl rfl rfl (List.Perm.refl _)
          · intro id hid hout
            exact absurd hid hout
          · exact fun _ _ => hqueue
          · simp
      | cons id queue =>
          obtain ⟨hcounted, hrest, hphase⟩ := h.next hqueue
          rw [Executor.step]
          constructor
          · rw [loopRefs, hphase]
            exact hcounted
          · intro other hother hout
            rw [hqueue, List.mem_cons] at hother
            rw [hrest] at hout
            cases hother with
            | inl heq => exact ⟨rfl, heq ▸ hphase, by rw [hqueue, heq]; rfl⟩
            | inr hmem => exact absurd hmem hout
          · intro _ hafter
            rw [hphase] at hafter
            exact Phase.noConfusion hafter
          · simp
  | finish output =>
      unfold Executor.permits at hpermits
      cases hphase : s.phase with
      | polling id =>
          have hlt : id < s.born := h.known id (by simp [loopRefs, hphase])
          have hcounted : (s.send id output).Counted s.loopRefs := by
            unfold Executor.send
            exact h.quiet hlt rfl rfl rfl
          rw [Executor.step, hphase]
          refine Stepped.called rfl hcounted ?_ ?_
          · exact fun other hother => hother
          · simp
      | _ => simp [hphase] at hpermits
  | endPoll =>
      unfold Executor.permits at hpermits
      cases hphase : s.phase with
      | polling id =>
          have hrefs : s.loopRefs = [id, id] := by simp [loopRefs, hphase]
          rw [hrefs] at h
          rw [Executor.step, hphase]
          constructor
          · exact h.endPoll
          · intro other hother hout
            exact absurd hother hout
          · intro _ hafter
            exact Phase.noConfusion hafter
          · simp
      | _ => simp [hphase] at hpermits
  | waited =>
      simp only [permits, Bool.and_eq_true, beq_iff_eq] at hpermits
      apply Stepped.phase h <;> simp [loopRefs, hpermits.1]

theorem new_counted (task : TaskId → Task T) : (new task).Counted [] := by
  constructor
  · exact List.nodup_nil
  · simp [new]
  · simp [new]
  · simp [new]
  · simp [new]
  · rfl

end Executor

end Inel.Tasks
