import Inel.Runtime.Machine

/-!
# Wakers in the ring

What a call on the ring means for the executor: a waker cloned, woken or dropped. A
waker is dropped by the task it wakes as that is polled, or after the task was put
into the queue, so no future is dropped while the ring is in use.
-/

namespace Inel.Runtime

open Transitions
open Reactor hiding Move Phase Stage
open Tasks (TaskId Executor)
open Tasks.Executor (outputMachine sent_of_reach)

variable {T : Type} {s s' : Executor T} {outputs : List (TaskId × T)} {id : TaskId}

theorem reach_step (h : Reach (outputMachine T) Any (s, outputs)) {move : Tasks.Move T}
    (hpermits : s.permits move = true) :
    Reach (outputMachine T) Any (s.step move, Executor.seeOutputs outputs s move) :=
  h.move move hpermits trivial rfl

/-- Nothing but references to tasks and their place in the queue changed. -/
structure Undisturbed (s s' : Executor T) : Prop where
  phase : s'.phase = s.phase
  born : s'.born = s.born
  queue : ∀ id ∈ s.queue, id ∈ s'.queue
  face : ∀ id, s'.face id = s.face id
  stage : ∀ id, (s'.task id).stage = (s.task id).stage

namespace Undisturbed

theorem refl (s : Executor T) : Undisturbed s s :=
  ⟨rfl, rfl, fun _ h => h, fun _ => rfl, fun _ => rfl⟩

theorem trans {s'' : Executor T} (h : Undisturbed s s') (h' : Undisturbed s' s'') :
    Undisturbed s s'' :=
  ⟨h'.phase.trans h.phase, h'.born.trans h.born, fun id hid => h'.queue id (h.queue id hid),
    fun id => (h'.face id).trans (h.face id), fun id => (h'.stage id).trans (h.stage id)⟩

theorem isDropping (h : Undisturbed s s') : s'.isDropping = s.isDropping := by
  unfold Executor.isDropping
  rw [h.born]
  congr 1
  funext id
  rw [h.stage]

theorem calls (h : Undisturbed s s') : s'.calls = s.calls := by
  unfold Executor.calls
  rw [h.phase, h.isDropping]

theorem future (h : Undisturbed s s') (id : TaskId) :
    (s'.task id).future = (s.task id).future := congrArg Prod.fst (h.face id)

end Undisturbed

theorem stage_update {f : Tasks.Task T → Tasks.Task T} {other : TaskId}
    (hf : (f (s.task id)).stage = (s.task id).stage) :
    ((s.update id f).task other).stage = (s.task other).stage := by
  by_cases heq : other = id
  · rw [heq, Executor.task_update, Function.update_self, hf]
  · rw [Executor.update_other f heq]

theorem stage_rcClone {other : TaskId} :
    ((s.rcClone id).task other).stage = (s.task other).stage := by
  apply stage_update
  rfl

theorem stage_schedule {other : TaskId} :
    ((s.schedule id).task other).stage = (s.task other).stage := by
  unfold Executor.schedule
  split
  · rfl
  · refine stage_rcClone.trans ?_
    apply stage_update
    rfl

theorem stage_rcDrop {other : TaskId} (hmany : (s.task id).strong ≠ 1) :
    ((s.rcDrop id).task other).stage = (s.task other).stage := by
  apply stage_update
  simp [hmany]

theorem stage_next {other : TaskId} : (s.next.task other).stage = (s.task other).stage := by
  unfold Executor.next
  split
  · rfl
  · next id queue hqueue =>
      trans ((Executor.rcClone { s with queue := queue, phase := .polling id } id).task other).stage
      · apply stage_update
        rfl
      · exact stage_rcClone

theorem undisturbed_clone (s : Executor T) (id : TaskId) :
    Undisturbed s (s.step (.clone id)) where
  phase := rfl
  born := rfl
  queue := fun _ h => h
  face := Executor.face_rcClone
  stage := fun _ => stage_rcClone

theorem undisturbed_wake (s : Executor T) (id : TaskId) :
    Undisturbed s (s.step (.wakeByRef id)) where
  phase := Executor.schedule_phase s id
  born := Executor.born_schedule
  queue := Executor.schedule_keeps s id
  face := Executor.face_schedule
  stage := fun _ => stage_schedule

theorem undisturbed_drop (hcounted : s.Counted s.loopRefs) (hwaker : id ∈ s.wakers)
    (hother : id ∈ s.queue ++ s.loopRefs) : Undisturbed s (s.step (.drop id)) where
  phase := rfl
  born := rfl
  queue := fun _ h => h
  face := Executor.face_rcDrop
  stage := by
    have hlt : id < s.born := hcounted.known id (by
      exact List.mem_append_left _ (List.mem_append_right _ hwaker))
    have hcount := hcounted.strong id hlt
    simp only [List.count_append] at hcount
    have hone := List.count_pos_iff.mpr hwaker
    have htwo := List.count_pos_iff.mpr hother
    rw [List.count_append] at htwo
    have hmany : (s.task id).strong ≠ 1 := by omega
    exact fun other => stage_rcDrop hmany

/-! ## One call -/

/-- What a call needs to do with a waker of the ring. -/
structure Settles (s : Executor T) (before after : Option TaskId) : Prop where
  calls : s.calls = true
  kept : ∀ id, before = some id → after = before ∨ after = none
  clones : ∀ id, after = some id → before = none → s.canBorrow id = true
  drops : ∀ id, before = some id → after = none → id ∈ s.queue ++ s.loopRefs

theorem settle_spec {before after : Option TaskId} {wakers wakers' elsewhere : List TaskId}
    (h : Reach (outputMachine T) Any (s, outputs)) (hsettles : Settles s before after)
    (hperm : s.wakers.Perm (wakers ++ elsewhere))
    (hcensus : (after.toList ++ wakers).Perm (before.toList ++ wakers')) :
    Reach (outputMachine T) Any (settle s before after, outputs) ∧
      (settle s before after).wakers.Perm (wakers' ++ elsewhere) ∧
      Undisturbed s (settle s before after) := by
  cases before with
  | none =>
      cases after with
      | none => exact ⟨h, hperm.trans (hcensus.append_right elsewhere), .refl s⟩
      | some id =>
          have hpermits : s.permits (.clone id) = true := by
            simp [Executor.permits, hsettles.calls, hsettles.clones id rfl rfl]
          exact ⟨reach_step h hpermits, (hperm.cons id).trans (hcensus.append_right elsewhere),
            undisturbed_clone s id⟩
  | some id =>
      cases after with
      | none =>
          have hmem : id ∈ s.wakers :=
            hperm.mem_iff.mpr (List.mem_append_left _ (hcensus.mem_iff.mpr List.mem_cons_self))
          have hpermits : s.permits (.drop id) = true := by
            simp [Executor.permits, hsettles.calls, hmem]
          refine ⟨reach_step h hpermits, ?_, ?_⟩
          · have herased := (hperm.trans (hcensus.append_right elsewhere)).erase id
            simpa [settle, Executor.step, Executor.wakerDrop] using herased
          · exact undisturbed_drop (sent_of_reach h).1 hmem (hsettles.drops id rfl rfl)
      | some other =>
          obtain rfl : other = id := by
            rcases hsettles.kept id rfl with hsame | hgone
            · exact Option.some.inj hsame
            · simp at hgone
          have hsame : wakers.Perm wakers' := by simpa using hcensus
          exact ⟨h, hperm.trans (hsame.append_right elsewhere), .refl s⟩

/-- Wakers that are woken put their tasks into the queue. -/
theorem wakes_spec {effects : List (Effect TaskId C)}
    (h : Reach (outputMachine T) Any (s, outputs)) (hcalls : s.calls = true)
    (hborrow : ∀ id, .wake id ∈ effects → id ∈ s.wakers) :
    Reach (outputMachine T) Any (wakes s effects, outputs) ∧
      (wakes s effects).wakers = s.wakers ∧ Undisturbed s (wakes s effects) ∧
      ∀ id, .wake id ∈ effects → id ∈ (wakes s effects).queue := by
  induction effects generalizing s with
  | nil => exact ⟨h, rfl, .refl s, by simp⟩
  | cons effect effects ih =>
      have htail : ∀ id, .wake id ∈ effects → id ∈ s.wakers :=
        fun id hid => hborrow id (List.mem_cons_of_mem _ hid)
      cases effect with
      | wake woken =>
          have hpermits : s.permits (.wakeByRef woken) = true := by
            simp [Executor.permits, hcalls, Executor.canBorrow, hborrow woken List.mem_cons_self]
          have hquiet := undisturbed_wake s woken
          have hsame : (s.step (.wakeByRef woken)).wakers = s.wakers := by
            show (s.schedule woken).wakers = s.wakers
            unfold Executor.schedule
            split <;> rfl
          have hqueued : woken ∈ (s.step (.wakeByRef woken)).queue :=
            ((sent_of_reach h).1.stepped hpermits).wakes woken (Or.inr rfl)
          obtain ⟨hreach, hwakers, hrest, hall⟩ := ih (reach_step h hpermits)
            (hquiet.calls.trans hcalls) (by rwa [hsame])
          refine ⟨hreach, hwakers.trans hsame, hquiet.trans hrest, fun id hid => ?_⟩
          rcases List.mem_cons.mp hid with heq | hid
          · obtain rfl := Effect.wake.inj heq
            exact hrest.queue id hqueued
          · exact hall id hid
      | consume cancel result =>
          obtain ⟨hreach, hwakers, hrest, hall⟩ := ih h hcalls htail
          exact ⟨hreach, hwakers, hrest, fun id hid => hall id (by simpa using hid)⟩
      | dropRaw cancel =>
          obtain ⟨hreach, hwakers, hrest, hall⟩ := ih h hcalls htail
          exact ⟨hreach, hwakers, hrest, fun id hid => hall id (by simpa using hid)⟩

end Inel.Runtime
