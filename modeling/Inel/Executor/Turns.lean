import Inel.Executor.Senders

/-!
# Turns

Tasks are polled in the order in which they were queued, so whoever is woken
meanwhile comes behind them, and the loop neither waits nor returns before each
has had its turn.
-/

namespace Inel.Tasks

open Transitions

namespace Executor

variable {T : Type} {s : Executor T} {move : Move T}

def seePolled (polled : List TaskId) (s : Executor T) : Move T → List TaskId
  | .next => polled ++ s.queue.head?.toList
  | _ => polled

def turnMachine (T : Type) : Machine (Executor T × List TaskId) (Move T) Reactor.Panic :=
  watch [] seePolled

theorem schedule_queue (s : Executor T) (id : TaskId) : s.queue <+: (s.schedule id).queue := by
  unfold Executor.schedule
  split
  · exact List.prefix_refl _
  · exact List.prefix_append _ _

/-- Nobody is queued but at the end, and nobody leaves but to be polled. -/
theorem step_turns (polled : List TaskId) (s : Executor T) (move : Move T) :
    polled <+: seePolled polled s move ∧
      polled ++ s.queue <+: seePolled polled s move ++ (s.step move).queue := by
  cases move with
  | spawn blocking =>
      refine ⟨List.prefix_refl _, (List.prefix_append_right_inj polled).mpr ?_⟩
      exact schedule_queue (s.allocate _) s.born
  | wake id =>
      refine ⟨List.prefix_refl _, (List.prefix_append_right_inj polled).mpr ?_⟩
      exact schedule_queue { s with wakers := s.wakers.erase id } id
  | wakeByRef id =>
      exact ⟨List.prefix_refl _, (List.prefix_append_right_inj polled).mpr (schedule_queue s id)⟩
  | next =>
      refine ⟨List.prefix_append _ _, ?_⟩
      cases hqueue : s.queue with
      | nil => simp [seePolled, Executor.step, Executor.next, hqueue]
      | cons id queue =>
          have hnext : s.next.queue = queue := by simp [Executor.next, hqueue, Executor.rcClone]
          simp [seePolled, Executor.step, hqueue, hnext]
  | finish output =>
      refine ⟨List.prefix_refl _, (List.prefix_append_right_inj polled).mpr ?_⟩
      simp only [Executor.step]
      split <;> exact List.prefix_refl _
  | endPoll =>
      refine ⟨List.prefix_refl _, (List.prefix_append_right_inj polled).mpr ?_⟩
      simp only [Executor.step]
      split <;> exact List.prefix_refl _
  | _ => exact ⟨List.prefix_refl _, List.prefix_refl _⟩

theorem Counted.rests (h : s.Counted s.loopRefs) (hpermits : s.permits move = true)
    (hbefore : s.phase ≠ .idle) (hafter : (s.step move).phase = .idle) :
    (s.step move).queue = [] := by
  have hcounted := (h.stepped hpermits).counted
  cases move with
  | check =>
      have hdone : s.isDone = true := by
        by_contra hmore
        rw [Executor.step, Executor.check, if_neg hmore] at hafter
        exact Phase.noConfusion hafter
      exact (hcounted.all_freed hdone).1
  | spawn blocking =>
      exact absurd ((schedule_phase (s.allocate _) s.born).symm.trans hafter) hbefore
  | wake id =>
      exact absurd ((schedule_phase { s with wakers := s.wakers.erase id } id).symm.trans hafter)
        hbefore
  | wakeByRef id => exact absurd ((schedule_phase s id).symm.trans hafter) hbefore
  | next =>
      simp only [Executor.step, Executor.next] at hafter
      split at hafter <;> exact Phase.noConfusion hafter
  | finish output =>
      simp only [Executor.step] at hafter
      split at hafter <;> exact absurd hafter hbefore
  | endPoll =>
      simp only [Executor.step] at hafter
      split at hafter
      · exact Phase.noConfusion hafter
      · exact absurd hafter hbefore
  | run => exact Phase.noConfusion hafter
  | waited => exact Phase.noConfusion hafter
  | _ => exact absurd hafter hbefore

/-- The loop is where nobody is queued as it comes there. -/
def resting (s : Executor T) : Bool := s.phase == .waiting || s.phase == .idle

/-- What has become of the turns in `s` by the time of `s'`. -/
structure Turns (s s' : Executor T × List TaskId) : Prop where
  counted : s'.1.Counted s'.1.loopRefs
  polled : s.2 <+: s'.2
  turns : s.2 ++ s.1.queue <+: s'.2 ++ s'.1.queue
  rested : s.1.resting = false → s'.1.resting = true → s.2 ++ s.1.queue <+: s'.2

theorem turns_of_reach {s s' : Executor T × List TaskId} (hcounted : s.1.Counted s.1.loopRefs)
    (h : Reach ((turnMachine T).after s) Any s') : Turns s s' := by
  refine Reach.invariant (I := Turns s) ?_ ?_ h
  · rintro s' rfl
    exact ⟨hcounted, List.prefix_refl _, List.prefix_refl _, fun hbefore hafter => by
      rw [hbefore] at hafter
      exact Bool.noConfusion hafter⟩
  · intro s' move s'' hturns (hpermits : s'.1.permits move = true) _ hok
    obtain ⟨hstep, hseen⟩ := @watch_step _ _ [] _ _ _ _ hok
    obtain ⟨hpolled, hqueue⟩ := step_turns s'.2 s'.1 move
    have hstepped := hturns.counted.stepped hpermits
    rw [← hstep] at hstepped hqueue
    rw [← hseen] at hpolled hqueue
    have hlater := hturns.turns.trans hqueue
    refine ⟨hstepped.counted, hturns.polled.trans hpolled, hlater, fun hbefore hafter => ?_⟩
    cases hrested : s'.1.resting with
    | true => exact (hturns.rested hbefore hrested).trans hpolled
    | false =>
        simp only [resting, Bool.or_eq_false_iff, beq_eq_false_iff_ne] at hrested
        have hempty : s''.1.queue = [] := by
          simp only [resting, Bool.or_eq_true, beq_iff_eq] at hafter
          cases hafter with
          | inl hwaiting => exact hstepped.waits hrested.1 hwaiting
          | inr hidle =>
              rw [hstep] at hidle ⊢
              exact hturns.counted.rests hpermits hrested.2 hidle
        rw [hempty, List.append_nil] at hlater
        exact hlater

theorem take_of_prefixes {α : Type} {xs ys zs : List α} (hxs : xs <+: zs) (hys : ys <+: zs) :
    ys.take xs.length = xs.take ys.length := by
  rcases List.prefix_or_prefix_of_prefix hxs hys with hle | hle
  · rw [List.take_of_length_le hle.length_le]
    exact (List.prefix_iff_eq_take.mp hle).symm
  · rw [List.take_of_length_le hle.length_le]
    exact List.prefix_iff_eq_take.mp hle

/-- A task that is queued has at most the other tasks there are ahead of it. However the run
goes on, these are polled first, in the order of the queue and each once, then it is; and
so are all that are queued before the loop waits or returns. -/
theorem polled_in_turn {s s' : Executor T × List TaskId} (h : Reach (turnMachine T) Any s)
    (hafter : Reach ((turnMachine T).after s) Any s') :
    s.1.queue.length < s.1.senders ∧ ∃ polled, s'.2 = s.2 ++ polled ∧
      polled.take s.1.queue.length = s.1.queue.take polled.length ∧
      (polled.take s.1.queue.length).Nodup ∧
      s.1.queue.drop polled.length <+: s'.1.queue ∧
      (s.1.resting = false → s'.1.resting = true → s.1.queue <+: polled) := by
  have hcounted := counted_of_reach h
  obtain ⟨-, ⟨polled, hpolled⟩, hturns, hrested⟩ := turns_of_reach hcounted hafter
  rw [← hpolled] at hturns hrested
  rw [List.append_assoc, List.prefix_append_right_inj] at hturns
  have htake : polled.take s.1.queue.length = s.1.queue.take polled.length :=
    take_of_prefixes hturns (List.prefix_append _ _)
  refine ⟨?_, polled, hpolled.symm, htake, ?_, ?_, fun hbefore hnow => ?_⟩
  · have halive : s.1.queue.toFinset ⊆ s.1.alive := by
      intro id hid
      have hmem : id ∈ s.1.queue := List.mem_toFinset.mp hid
      have hheld : id ∈ s.1.queue ++ s.1.wakers ++ s.1.loopRefs := by simp [hmem]
      simp [alive, hcounted.known id hheld, hcounted.live_of_mem hheld]
    have hcard := Finset.card_le_card halive
    rw [List.toFinset_card_of_nodup hcounted.nodup] at hcard
    have hsenders := hcounted.senders
    omega
  · rw [htake]
    exact hcounted.nodup.sublist (List.take_sublist _ _)
  · have hdrop := hturns.drop polled.length
    rwa [List.drop_left] at hdrop
  · exact (List.prefix_append_right_inj _).mp (hrested hbefore hnow)

/-- A task that wakes itself as it is polled comes behind the one that was queued. -/
theorem woken_task_polled_last :
    ∃ s s' : Executor Nat × List TaskId, (s.1.queue = [0, 1] ∧ s'.2 = [0, 1, 0]) ∧
      ∃ polled, s'.2 = s.2 ++ polled ∧
        polled.take s.1.queue.length = s.1.queue.take polled.length := by
  obtain ⟨s, hreach, hlater⟩ := Reach.of_replay (M := turnMachine Nat)
    (fun s move => s.1.permits move) permits_any
    (.start (s := (idleExecutor, [])) ⟨⟨_, rfl⟩, rfl⟩)
    [.spawn true, .spawn false, .run, .check]
    (fun s => (replay (turnMachine Nat) (fun s move => s.1.permits move) s
      [.next, .wakeByRef 0, .endPoll, .next, .endPoll, .free 1, .next]).any fun s' =>
        s.1.queue = [0, 1] ∧ s'.2 = [0, 1, 0]) rfl
  rw [← replay_after s] at hlater
  obtain ⟨s', hafter, htest⟩ := Reach.of_replay (M := (turnMachine Nat).after s)
    (fun s move => s.1.permits move) permits_any (.start rfl) _ _ hlater
  obtain ⟨-, polled, hpolled, htake, -⟩ := polled_in_turn hreach hafter
  exact ⟨s, s', of_decide_eq_true htest, polled, hpolled, htake⟩

end Executor

end Inel.Tasks
