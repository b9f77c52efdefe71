import Inel.Executor.References

/-!
# Wakeups

A wake puts its task into the queue, and the task stays there until it is polled.
The reactor is waited for when nobody is left in the queue.
-/

namespace Inel.Tasks

open Transitions

namespace Executor

variable {T γ : Type}

/-- The references are counted in every state of a run, whoever watches it. -/
theorem counted_of_reach {blank : γ} {see : γ → Executor T → Move T → γ}
    {cond : Executor T × γ → Move T → Prop} {s : Executor T × γ}
    (h : Reach (watch blank see) cond s) : s.1.Counted s.1.loopRefs := by
  refine Reach.invariant (I := fun s => s.1.Counted s.1.loopRefs) ?_ ?_ h
  · rintro ⟨s, seen⟩ ⟨⟨task, rfl⟩, -⟩
    exact new_counted task
  · intro s move s' hcounted hpermits _ hok
    rw [(watch_step hok).1]
    exact (hcounted.stepped hpermits).counted

def seeWoken (woken : List TaskId) (s : Executor T) : Move T → List TaskId
  | .wake id => id :: woken
  | .wakeByRef id => id :: woken
  | .next => woken.filter (s.queue.head? ≠ some ·)
  | _ => woken

def wokenMachine (T : Type) : Machine (Executor T × List TaskId) (Move T) Reactor.Panic :=
  watch [] seeWoken

theorem mem_seeWoken {woken : List TaskId} {s : Executor T} {move : Move T} {id : TaskId}
    (h : id ∈ seeWoken woken s move) : (move = .wake id ∨ move = .wakeByRef id) ∨
      id ∈ woken ∧ (move = .next → s.queue.head? ≠ some id) := by
  cases move with
  | wake other =>
      cases List.mem_cons.mp h with
      | inl heq => exact Or.inl (Or.inl (by rw [heq]))
      | inr hmem => exact Or.inr ⟨hmem, by simp⟩
  | wakeByRef other =>
      cases List.mem_cons.mp h with
      | inl heq => exact Or.inl (Or.inr (by rw [heq]))
      | inr hmem => exact Or.inr ⟨hmem, by simp⟩
  | next =>
      obtain ⟨hmem, hhead⟩ := List.mem_filter.mp h
      exact Or.inr ⟨hmem, fun _ => by simpa using hhead⟩
  | _ => exact Or.inr ⟨h, by simp⟩

/-- Every wake since its latest poll began has its task queued. -/
theorem woken_queued {s : Executor T × List TaskId} (h : Reach (wokenMachine T) Any s) :
    ∀ id ∈ s.2, id ∈ s.1.queue := by
  have hboth : s.1.Counted s.1.loopRefs ∧ ∀ id ∈ s.2, id ∈ s.1.queue := by
    refine Reach.invariant
      (I := fun s => s.1.Counted s.1.loopRefs ∧ ∀ id ∈ s.2, id ∈ s.1.queue) ?_ ?_ h
    · rintro ⟨s, seen⟩ ⟨⟨task, rfl⟩, rfl⟩
      exact ⟨new_counted task, by simp⟩
    · intro s move s' ⟨hcounted, hwoken⟩ hpermits _ hok
      obtain ⟨hs', hseen⟩ := watch_step hok
      have hstepped := hcounted.stepped hpermits
      rw [← hs'] at hstepped
      refine ⟨hstepped.counted, fun id hid => ?_⟩
      rw [hseen] at hid
      cases mem_seeWoken hid with
      | inl hwake => exact hstepped.wakes id hwake
      | inr hold =>
          by_contra hout
          obtain ⟨hmove, -, hhead⟩ := hstepped.leaves id (hwoken id hold.1) hout
          exact hold.2 hmove hhead
  exact hboth.2

/-- A task is queued at most once, which its flag says. Woken since its latest
poll began, it is in the queue, where it stays until it is polled. Nothing is in
the queue as the reactor is waited for. -/
theorem wakeups_kept {s : Executor T × List TaskId} (h : Reach (wokenMachine T) Any s) :
    s.1.queue.Nodup ∧ (∀ id < s.1.born, ((s.1.task id).scheduled = true ↔ id ∈ s.1.queue)) ∧
    (∀ id ∈ s.2, id ∈ s.1.queue) ∧
    ∀ move s', (wokenMachine T).permits s move → (wokenMachine T).exec s move = .ok s' →
      (∀ id, move = .wake id ∨ move = .wakeByRef id → id ∈ s'.1.queue) ∧
      (∀ id ∈ s.1.queue, id ∉ s'.1.queue → move = .next ∧ s'.1.phase = .polling id) ∧
      (s.1.phase ≠ .waiting → s'.1.phase = .waiting → s'.1.queue = []) := by
  have hcounted := counted_of_reach h
  refine ⟨hcounted.nodup, hcounted.flag, woken_queued h, ?_⟩
  intro move s' hpermits hok
  have hstepped := hcounted.stepped hpermits
  rw [← (watch_step hok).1] at hstepped
  refine ⟨hstepped.wakes, fun id hid hout => ?_, hstepped.waits⟩
  obtain ⟨hmove, hphase, -⟩ := hstepped.leaves id hid hout
  exact ⟨hmove, hphase⟩

def idleExecutor : Executor Nat :=
  new fun _ => ⟨false, 0, .freed, .incomplete, ⟨none, 0, false⟩, false⟩

theorem permits_any {γ : Type} (s : Executor Nat × γ) (move : Move Nat)
    (h : s.1.permits move = true) : s.1.permits move = true ∧ Any s move := ⟨h, trivial⟩

/-- A task clones its waker at its first poll; woken while the reactor is waited
for, it is queued for another. -/
theorem woken_while_waiting_queued :
    ∃ s : Executor Nat × List TaskId, (0 ∈ s.2 ∧ s.1.phase = .waiting) ∧ 0 ∈ s.1.queue := by
  obtain ⟨s, hreach, htest⟩ := Reach.of_replay (M := wokenMachine Nat)
    (fun s move => s.1.permits move) permits_any
    (.start (s := (idleExecutor, [])) ⟨⟨_, rfl⟩, rfl⟩)
    [.spawn true, .run, .check, .next, .clone 0, .endPoll, .next, .wake 0]
    (fun s => 0 ∈ s.2 && s.1.phase == .waiting) rfl
  simp only [Bool.and_eq_true, decide_eq_true_eq, beq_iff_eq] at htest
  exact ⟨s, htest, (wakeups_kept hreach).2.2.1 0 htest.1⟩

end Executor

end Inel.Tasks
