import Inel.Executor.Wakeups

/-!
# Senders and outputs

A task has a sender as long as anyone refers to it, so the run that sees one
sender has nobody left to wait for. Each future's output is sent once, as it
completes, and `block_on` finds the output of its own when the run is over.
-/

namespace Inel.Tasks

open Transitions

namespace Executor

variable {T : Type} {s : Executor T} {id : TaskId}

def seeOutputs (outputs : List (TaskId × T)) (s : Executor T) : Move T → List (TaskId × T)
  | .finish output =>
      match s.phase with
      | .polling id => (id, output) :: outputs
      | _ => outputs
  | _ => outputs

def outputMachine (T : Type) : Machine (Executor T × List (TaskId × T)) (Move T) Reactor.Panic :=
  watch [] seeOutputs

def referenced (s : Executor T) : Finset TaskId :=
  (Finset.range s.born).filter fun id =>
    id ∈ s.queue ∨ s.phase = .polling id ∨ id ∈ s.wakers

def dropping (s : Executor T) : Finset TaskId :=
  (Finset.range s.born).filter fun id => (s.task id).stage = .dropping

/-! ## What the future and its handle see of a task -/

/-- The future of a task, its channel and who has the handle. -/
def face (s : Executor T) (id : TaskId) : FutureState × JoinChannel T × Bool :=
  ((s.task id).future, (s.task id).channel, (s.task id).blocking)

theorem face_update {f : Task T → Task T} {other : TaskId}
    (hf : ∀ task, (f task).future = task.future ∧ (f task).channel = task.channel ∧
      (f task).blocking = task.blocking) : (s.update id f).face other = s.face other := by
  unfold face
  by_cases heq : other = id
  · subst heq
    obtain ⟨hfuture, hchannel, hblocking⟩ := hf (s.task other)
    rw [task_update, Function.update_self, hfuture, hchannel, hblocking]
  · rw [update_other f heq]

theorem face_rcClone (other : TaskId) : (s.rcClone id).face other = s.face other :=
  face_update fun _ => ⟨rfl, rfl, rfl⟩

theorem face_rcDrop (other : TaskId) : (s.rcDrop id).face other = s.face other :=
  face_update fun _ => ⟨rfl, rfl, rfl⟩

theorem face_schedule (other : TaskId) : (s.schedule id).face other = s.face other := by
  unfold Executor.schedule
  split
  · rfl
  · exact (face_rcClone other).trans (face_update fun _ => ⟨rfl, rfl, rfl⟩)

theorem face_next (other : TaskId) : s.next.face other = s.face other := by
  unfold Executor.next
  split
  · rfl
  · next id queue hqueue =>
      trans face (rcClone { s with queue := queue, phase := .polling id } id) other
      · apply face_update
        exact fun _ => ⟨rfl, rfl, rfl⟩
      · exact face_rcClone other

def Completes (s : Executor T) (move : Move T) (id : TaskId) (output : T) : Prop :=
  move = .finish output ∧ s.phase = .polling id

theorem face_send (output : T) : (s.send id output).face id = (.complete,
    { (s.face id).2.1 with
      output := if (s.face id).2.1.receiver then some output else none,
      sends := (s.face id).2.1.sends + 1 }, (s.face id).2.2) := by
  unfold face Executor.send
  rw [task_update, Function.update_self]

/-- A move that completes no future leaves its face alone but for what its handle
is used for, which `block_on` does with none. -/
theorem face_step {move : Move T} {other : TaskId} (hpermits : s.permits move = true)
    (hother : other < s.born) (hmove : ∀ output, ¬ s.Completes move other output) :
    (s.step move).face other = s.face other ∨
      (s.face other).2.2 = false ∧ ((s.step move).face other).2.2 = false ∧
      ((s.step move).face other).1 = (s.face other).1 ∧
      ((s.step move).face other).2.1.sends = (s.face other).2.1.sends := by
  cases move with
  | spawn blocking =>
      left
      have hne : other ≠ s.born := Nat.ne_of_lt hother
      show (Executor.rcDrop _ _).face other = _
      rw [face_rcDrop, face_schedule]
      unfold face
      rw [show (s.allocate _).task other = s.task other from Function.update_of_ne hne _ _]
  | clone id => exact Or.inl (face_rcClone other)
  | wake id => exact Or.inl ((face_rcDrop other).trans (face_schedule other))
  | wakeByRef id => exact Or.inl (face_schedule other)
  | drop id => exact Or.inl (face_rcDrop other)
  | tryJoin id =>
      simp only [permits, Bool.and_eq_true, Bool.not_eq_true'] at hpermits
      unfold face
      by_cases heq : other = id
      · subst heq
        right
        simp [Executor.step, Executor.tryJoin, hpermits.2]
      · left
        rw [show (s.step (.tryJoin id)).task other = s.task other from
          Function.update_of_ne heq _ _]
  | detach id =>
      simp only [permits, Bool.and_eq_true, Bool.not_eq_true'] at hpermits
      unfold face
      by_cases heq : other = id
      · subst heq
        right
        simp [Executor.step, Executor.detach, hpermits.2]
      · left
        rw [show (s.step (.detach id)).task other = s.task other from
          Function.update_of_ne heq _ _]
  | free id =>
      left
      have hfree : (s.step (.free id)).face other =
          (s.update id fun task => { task with stage := .freed }).face other := rfl
      rw [hfree]
      exact face_update fun _ => ⟨rfl, rfl, rfl⟩
  | run => exact Or.inl rfl
  | check => exact Or.inl rfl
  | next => exact Or.inl (face_next other)
  | finish output =>
      left
      rw [Executor.step]
      cases hphase : s.phase with
      | polling id =>
          have hne : other ≠ id := fun heq => hmove output ⟨rfl, heq ▸ hphase⟩
          unfold face
          rw [show (s.send id output).task other = s.task other from Function.update_of_ne hne _ _]
      | _ => rfl
  | endPoll =>
      left
      rw [Executor.step]
      cases s.phase with
      | polling id => exact (face_rcDrop other).trans (face_rcDrop other)
      | _ => rfl
  | waited => exact Or.inl rfl

theorem face_spawn (s : Executor T) (blocking : Bool) :
    (s.scheduleNew blocking).face s.born = (.incomplete, ⟨none, 0, true⟩, blocking) := by
  unfold Executor.scheduleNew
  rw [face_rcDrop, face_schedule]
  unfold face
  rw [show (s.allocate _).task s.born = _ from Function.update_self ..]

theorem born_schedule : (s.schedule id).born = s.born := by
  unfold Executor.schedule
  split <;> rfl

theorem step_born (s : Executor T) (move : Move T) : (s.step move).born = s.born ∨
    ∃ blocking, move = .spawn blocking ∧ (s.step move).born = s.born + 1 := by
  cases move with
  | spawn blocking => exact Or.inr ⟨blocking, rfl, born_schedule⟩
  | wake id => exact Or.inl born_schedule
  | wakeByRef id => exact Or.inl born_schedule
  | next =>
      left
      show s.next.born = s.born
      unfold Executor.next
      split <;> rfl
  | finish output =>
      left
      unfold Executor.step
      cases s.phase <;> rfl
  | endPoll =>
      left
      unfold Executor.step
      cases s.phase <;> rfl
  | _ => exact Or.inl rfl

/-! ## Outputs -/

theorem seeOutputs_of_completes {outputs : List (TaskId × T)} {move : Move T} {output : T}
    (h : s.Completes move id output) : seeOutputs outputs s move = (id, output) :: outputs := by
  obtain ⟨rfl, hphase⟩ := h
  simp [seeOutputs, hphase]

theorem seeOutputs_other {outputs : List (TaskId × T)} {move : Move T}
    (h : ∀ output, ¬ s.Completes move id output) :
    (∀ output, (id, output) ∈ seeOutputs outputs s move ↔ (id, output) ∈ outputs) ∧
      (seeOutputs outputs s move).countP (·.1 = id) = outputs.countP (·.1 = id) := by
  cases move with
  | finish output =>
      cases hphase : s.phase with
      | polling other =>
          have hne : id ≠ other := fun heq => h output ⟨rfl, heq ▸ hphase⟩
          simp [seeOutputs, hphase, hne, Ne.symm hne]
      | _ => simp [seeOutputs, hphase]
  | _ => exact ⟨fun _ => Iff.rfl, rfl⟩

/-- A task's output was sent when it came, and is with `block_on` still. -/
structure SentTo (s : Executor T) (outputs : List (TaskId × T)) (id : TaskId) : Prop where
  sends : (s.face id).2.1.sends = outputs.countP (·.1 = id)
  once : (s.face id).2.1.sends = if (s.face id).1 = .complete then 1 else 0
  blocking : (s.face id).2.2 = true → (s.face id).2.1.receiver = true ∧
    ∀ output, (id, output) ∈ outputs → (s.face id).2.1.output = some output

structure Sent (s : Executor T) (outputs : List (TaskId × T)) : Prop where
  born : ∀ id output, (id, output) ∈ outputs → id < s.born
  each : ∀ id < s.born, s.SentTo outputs id

variable {outputs : List (TaskId × T)} {move : Move T}

theorem SentTo.completes {output : T} (h : s.SentTo outputs id)
    (hmove : s.Completes move id output) (hpermits : s.permits move = true) :
    (s.step move).SentTo (seeOutputs outputs s move) id := by
  rw [seeOutputs_of_completes hmove]
  obtain ⟨rfl, hphase⟩ := hmove
  have hincomplete : (s.face id).1 = .incomplete := by
    simpa [permits, hphase, face] using hpermits
  have hzero : (s.face id).2.1.sends = 0 := by
    rw [h.once, hincomplete]
    rfl
  have hstep : s.step (.finish output) = s.send id output := by
    rw [Executor.step, hphase]
  have hnone : ∀ earlier, (id, earlier) ∉ outputs := by
    intro earlier hmem
    have hpos : 0 < outputs.countP (·.1 = id) := List.countP_pos_iff.mpr ⟨_, hmem, by simp⟩
    have hsends := h.sends
    omega
  rw [hstep]
  constructor
  · rw [face_send, List.countP_cons]
    simp [h.sends]
  · rw [face_send]
    simp [hzero]
  · rw [face_send]
    intro hblocking
    obtain ⟨hreceiver, -⟩ := h.blocking hblocking
    refine ⟨hreceiver, fun other hother => ?_⟩
    cases List.mem_cons.mp hother with
    | inl heq =>
        obtain ⟨-, rfl⟩ := Prod.mk.inj heq
        simp [hreceiver]
    | inr hmem => exact absurd hmem (hnone other)

theorem SentTo.other (h : s.SentTo outputs id) (hlt : id < s.born)
    (hmove : ∀ output, ¬ s.Completes move id output) (hpermits : s.permits move = true) :
    (s.step move).SentTo (seeOutputs outputs s move) id := by
  have hseen : (∀ output, (id, output) ∈ seeOutputs outputs s move ↔ (id, output) ∈ outputs) ∧
      (seeOutputs outputs s move).countP (·.1 = id) = outputs.countP (·.1 = id) :=
    seeOutputs_other hmove
  obtain ⟨hmem, hcount⟩ := hseen
  cases face_step hpermits hlt hmove with
  | inl hface =>
      constructor
      · rw [hface, hcount]
        exact h.sends
      · rw [hface]
        exact h.once
      · rw [hface]
        intro hblocking
        obtain ⟨hreceiver, hkept⟩ := h.blocking hblocking
        exact ⟨hreceiver, fun output hout => hkept output ((hmem output).mp hout)⟩
  | inr hused =>
      obtain ⟨-, hfree, hfuture, hsends⟩ := hused
      constructor
      · rw [hsends, hcount]
        exact h.sends
      · rw [hsends, hfuture]
        exact h.once
      · intro hblocking
        rw [hfree] at hblocking
        exact Bool.noConfusion hblocking

theorem Sent.step (h : s.Sent outputs) (hcounted : s.Counted s.loopRefs)
    (hpermits : s.permits move = true) : (s.step move).Sent (seeOutputs outputs s move) := by
  have hold : ∀ id < s.born, (s.step move).SentTo (seeOutputs outputs s move) id := by
    intro id hlt
    by_cases hmove : ∃ output, s.Completes move id output
    · obtain ⟨output, hmove⟩ := hmove
      exact (h.each id hlt).completes hmove hpermits
    · exact (h.each id hlt).other hlt (fun output hout => hmove ⟨output, hout⟩) hpermits
  have hle : s.born ≤ (s.step move).born := by
    cases step_born s move with
    | inl hsame => omega
    | inr hspawn =>
        obtain ⟨blocking, -, hmore⟩ := hspawn
        omega
  constructor
  · intro id output hmem
    by_cases hmove : ∃ output, s.Completes move id output
    · obtain ⟨other, hmove⟩ := hmove
      have hlt : id < s.born := hcounted.known id (by simp [loopRefs, hmove.2])
      exact Nat.lt_of_lt_of_le hlt hle
    · have hout : (id, output) ∈ seeOutputs outputs s move ↔ (id, output) ∈ outputs :=
        (seeOutputs_other fun other hother => hmove ⟨other, hother⟩).1 output
      exact Nat.lt_of_lt_of_le (h.born id output (hout.mp hmem)) hle
  · intro id hlt
    by_cases hid : id < s.born
    · exact hold id hid
    · cases step_born s move with
      | inl hsame => omega
      | inr hspawn =>
          obtain ⟨blocking, rfl, hmore⟩ := hspawn
          obtain rfl : id = s.born := by omega
          have hnone : ∀ output, (s.born, output) ∉ outputs := fun output hmem =>
            Nat.lt_irrefl _ (h.born s.born output hmem)
          have hzero : outputs.countP (·.1 = s.born) = 0 := by
            rw [List.countP_eq_zero]
            intro pair hpair
            simp only [decide_eq_true_eq]
            exact fun heq => hnone pair.2 (heq ▸ hpair)
          have hface : (s.step (.spawn blocking)).face s.born = _ := face_spawn s blocking
          constructor
          · rw [hface]
            exact hzero.symm
          · rw [hface]
            rfl
          · rw [hface]
            intro _
            exact ⟨rfl, fun output hmem => absurd hmem (hnone output)⟩

/-! ## The end of a run -/

theorem Counted.mem_referenced (h : s.Counted s.loopRefs) (hlt : id < s.born) :
    id ∈ s.referenced ↔ (s.task id).stage = .live := by
  rw [h.live id hlt, h.strong id hlt, List.count_pos_iff]
  have hloop : id ∈ s.loopRefs ↔ s.phase = .polling id := by
    unfold loopRefs
    split
    · next other hphase => simp [hphase, eq_comm]
    · next hphase => simpa using fun heq => hphase id heq
  simp only [referenced, Finset.mem_filter, Finset.mem_range, hlt, true_and, List.mem_append,
    hloop]
  tauto

/-- A task that is not freed is referred to, or its future is being dropped. -/
theorem Counted.card_alive (h : s.Counted s.loopRefs) :
    s.alive.card = s.referenced.card + s.dropping.card := by
  have hunion : s.alive = s.referenced ∪ s.dropping := by
    ext id
    by_cases hlt : id < s.born
    · rw [Finset.mem_union, h.mem_referenced hlt]
      simp only [alive, dropping, Finset.mem_filter, Finset.mem_range, hlt, true_and]
      cases (s.task id).stage <;> simp
    · simp [alive, referenced, dropping, hlt]
  have hdisjoint : Disjoint s.referenced s.dropping := by
    rw [Finset.disjoint_left]
    intro id hreferenced hdropping
    obtain ⟨hlt, hstage⟩ := Finset.mem_filter.mp hdropping
    have hlive := (h.mem_referenced (Finset.mem_range.mp hlt)).mp hreferenced
    exact Stage.noConfusion (hlive.symm.trans hstage)
  rw [hunion, Finset.card_union_of_disjoint hdisjoint]

theorem dropping_eq_empty (hdropping : s.isDropping = false) : s.dropping = ∅ := by
  simp only [isDropping, List.any_eq_false, List.mem_range, beq_iff_eq] at hdropping
  exact Finset.filter_eq_empty_iff.mpr fun id hmem => hdropping id (Finset.mem_range.mp hmem)

/-- With one sender left, all tasks are gone. -/
theorem Counted.all_freed (h : s.Counted s.loopRefs) (hdone : s.isDone = true) :
    s.queue = [] ∧ s.wakers = [] ∧ ∀ id < s.born, (s.task id).stage = .freed := by
  have hsenders := h.senders
  have hone : s.senders = 1 := by simpa [isDone] using hdone
  have halive : s.alive = ∅ := Finset.card_eq_zero.mp (by omega)
  have hfreed : ∀ id < s.born, (s.task id).stage = .freed := by
    intro id hlt
    by_contra hstage
    have hmem : id ∈ s.alive := by simp [alive, hlt, hstage]
    rw [halive] at hmem
    exact absurd hmem (Finset.notMem_empty id)
  have hnone : ∀ id, id ∉ s.queue ++ s.wakers ++ s.loopRefs := by
    intro id hmem
    have hlive := h.live_of_mem hmem
    rw [hfreed id (h.known id hmem)] at hlive
    exact Stage.noConfusion hlive
  refine ⟨List.eq_nil_iff_forall_not_mem.mpr fun id hid => ?_,
    List.eq_nil_iff_forall_not_mem.mpr fun id hid => ?_, hfreed⟩
  · exact hnone id (List.mem_append_left _ (List.mem_append_left _ hid))
  · exact hnone id (List.mem_append_left _ (List.mem_append_right _ hid))

theorem sent_of_reach {s : Executor T × List (TaskId × T)}
    (h : Reach (outputMachine T) Any s) : s.1.Counted s.1.loopRefs ∧ s.1.Sent s.2 := by
  refine Reach.invariant (I := fun s => s.1.Counted s.1.loopRefs ∧ s.1.Sent s.2) ?_ ?_ h
  · rintro ⟨s, seen⟩ ⟨⟨task, rfl⟩, rfl⟩
    exact ⟨new_counted task, ⟨by simp, by simp [new]⟩⟩
  · intro s move s' hinv hpermits _ hok
    obtain ⟨hcounted, hsent⟩ := hinv
    obtain ⟨hs', hseen⟩ := watch_step hok
    rw [hs', hseen]
    exact ⟨(hcounted.stepped hpermits).counted, hsent.step hcounted hpermits⟩

theorem Sent.blockedOn {outputs : List (TaskId × T)} {output : T} (h : s.Sent outputs)
    (hmem : (id, output) ∈ outputs) (hblocking : (s.task id).blocking = true) :
    s.blockedOn id = .ok output := by
  have hkept := ((h.each id (h.born id output hmem)).blocking hblocking).2 output hmem
  unfold Executor.blockedOn Executor.tryJoin
  rw [show (s.task id).channel.output = some output from hkept]

/-- The senders are one more than the tasks that the queue, the loop or a waker
refers to, and those whose future is being dropped. So a run returns when every
future was dropped, complete and its output sent once, or with no waker left to
wake it; and `block_on` returns what its future returned. -/
theorem run_returns_at_the_end {s : Executor T × List (TaskId × T)}
    (h : Reach (outputMachine T) Any s) :
    (s.1.senders = 1 + s.1.referenced.card + s.1.dropping.card ∧
      (s.1.isDropping = false → s.1.senders = 1 + s.1.referenced.card)) ∧
    (∀ id < s.1.born, id ∈ s.1.referenced ↔ (s.1.task id).stage = .live) ∧
    (∀ id < s.1.born, (s.1.task id).channel.sends = s.2.countP (·.1 = id) ∧
      (s.1.task id).channel.sends = if (s.1.task id).future = .complete then 1 else 0) ∧
    (∀ id output, (id, output) ∈ s.2 → (s.1.task id).blocking = true →
      s.1.blockedOn id = .ok output) ∧
    ∀ s', (outputMachine T).permits s .check → (outputMachine T).exec s .check = .ok s' →
      s'.1.phase = .idle → s'.1.queue = [] ∧ s'.1.wakers = [] ∧
        ∀ id < s'.1.born, (s'.1.task id).stage = .freed := by
  obtain ⟨hcounted, hsent⟩ := sent_of_reach h
  have hsenders : s.1.senders = 1 + s.1.referenced.card + s.1.dropping.card := by
    rw [hcounted.senders, hcounted.card_alive, Nat.add_assoc]
  refine ⟨⟨hsenders, fun hdropping => ?_⟩, ?_, ?_, ?_, ?_⟩
  · rw [hsenders, dropping_eq_empty hdropping, Finset.card_empty, Nat.add_zero]
  · exact fun id hlt => hcounted.mem_referenced hlt
  · exact fun id hlt => ⟨(hsent.each id hlt).sends, (hsent.each id hlt).once⟩
  · exact fun id output hmem hblocking => hsent.blockedOn hmem hblocking
  · intro s' hpermits hok hidle
    rw [(watch_step hok).1] at hidle ⊢
    have hdone : s.1.isDone = true := by
      by_contra hmore
      rw [Executor.step, Executor.check, if_neg hmore] at hidle
      exact Phase.noConfusion hidle
    exact hcounted.all_freed hdone

/-- As the future of a task is being dropped nobody refers to the task any more, whose
sender is still there. -/
theorem sender_dropped_last : ∃ s : Executor Nat × List (TaskId × Nat),
    Reach (outputMachine Nat) Any s ∧ s.1.referenced = ∅ ∧ s.1.senders = 2 ∧
      s.1.senders ≠ 1 + s.1.referenced.card := by
  obtain ⟨s, hreach, htest⟩ := Reach.of_replay (M := outputMachine Nat)
    (fun s move => s.1.permits move) permits_any
    (.start (s := (idleExecutor, [])) ⟨⟨_, rfl⟩, rfl⟩)
    [.spawn false, .run, .check, .next, .finish 7, .endPoll]
    (fun s => s.1.referenced = ∅ ∧ s.1.senders = 2) rfl
  obtain ⟨hreferenced, hsenders⟩ := of_decide_eq_true htest
  refine ⟨s, hreach, hreferenced, hsenders, ?_⟩
  rw [hreferenced, hsenders]
  decide

/-- The future of `block_on` spawns another, whose end wakes it for its own. -/
theorem spawned_task_awaited :
    ∃ s : Executor Nat × List (TaskId × Nat), (s.1.phase = .idle ∧ s.2 = [(0, 7), (1, 8)] ∧
      (s.1.task 0).blocking = true) ∧ s.1.blockedOn 0 = .ok 7 := by
  obtain ⟨s, hreach, htest⟩ := Reach.of_replay (M := outputMachine Nat)
    (fun s move => s.1.permits move) permits_any
    (.start (s := (idleExecutor, [])) ⟨⟨_, rfl⟩, rfl⟩)
    [.spawn true, .run, .check, .next, .spawn false, .clone 0, .endPoll, .next, .finish 8,
      .wake 0, .endPoll, .free 1, .next, .finish 7, .endPoll, .free 0, .next, .waited, .check]
    (fun s => s.1.phase = .idle ∧ s.2 = [(0, 7), (1, 8)] ∧ (s.1.task 0).blocking = true) rfl
  have hend := of_decide_eq_true htest
  have houtput : (0, 7) ∈ s.2 := by simp [hend.2.1]
  have hjoined := (run_returns_at_the_end hreach).2.2.2.1
  exact ⟨s, hend, hjoined 0 7 houtput hend.2.2⟩

end Executor

end Inel.Tasks
