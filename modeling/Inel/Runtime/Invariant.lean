import Inel.Runtime.Calls
import Inel.Runtime.Settling

/-!
# The invariant of the runtime

The executor is in a state of its own runs and so are ring and kernel. The wakers of
the executor are those in the ring and those kept elsewhere, a mailbox belongs to who
holds it, and a wait asks for no more than there is.
-/

namespace Inel.Runtime

open Transitions
open Reactor hiding Move Phase Stage
open Tasks (TaskId Executor)
open Tasks.Executor (outputMachine sent_of_reach)

variable {O E Out T C : Type}

/-! ## What a wait asks for -/

section Asked

variable {s s' : System TaskId C}

theorem owed_length_of_enter (hok : s.exec .enter = .ok s') :
    s'.owed.length = s.owed.length := by
  cases hidle : s.ring.idle with
  | true =>
      obtain rfl := Except.ok.inj ((System.exec_enter_idle s hidle).symm.trans hok)
      rfl
  | false =>
      obtain rfl := Except.ok.inj ((System.exec_enter s hidle).symm.trans hok)
      simp [System.owed, Nat.add_comm]

theorem owed_length_of_handle {i : Nat} (hok : s.exec (.handle i) = .ok s') :
    s.owed.length ≤ s'.owed.length + 1 := by
  simp only [System.exec] at hok
  split at hok
  · next entry result rest hget =>
      obtain ⟨ran, hran, hret⟩ := bind_eq_ok hok
      obtain rfl := Except.ok.inj hret
      have hlt := (List.getElem?_eq_some_iff.mp hget).1
      have hqueue : ran.state.queue = s.ring.queue := by
        unfold Ring.handleCompletion at hran
        split at hran
        · rw [← Except.ok.inj hran]
        · obtain ⟨notified, -, hback⟩ := bind_eq_ok hran
          rw [← Except.ok.inj hback]
      simp only [System.owed, hqueue, List.length_append, List.length_map]
      split
      · simp
      · rw [List.length_eraseIdx_of_lt hlt]
        omega
  · obtain rfl := Except.ok.inj hok
    exact Nat.le_succ _

/-- Nothing but reading a completion makes less of what is outstanding. -/
theorem owed_length_le {c : Command TaskId C} (hok : s.exec c = .ok s')
    (hhandle : ∀ i, c ≠ .handle i) : s.owed.length ≤ s'.owed.length := by
  cases c with
  | submit slot waker =>
      obtain ⟨⟨key, ring⟩, hsubmit, hret⟩ := bind_eq_ok hok
      obtain ⟨-, hring⟩ := Ring.submit_eq_ok hsubmit
      rw [← Except.ok.inj hret]
      simp [System.owed, hring]
  | submitDetached =>
      obtain ⟨ring, hsubmit, hret⟩ := bind_eq_ok hok
      rw [← Except.ok.inj hret]
      simp [System.owed, Ring.submitDetached_eq_ok hsubmit]
  | cancel key entry cancel =>
      obtain ⟨ran, hran, hret⟩ := bind_eq_ok hok
      obtain ⟨accepted, completions, -, hring⟩ := Ring.cancel_eq_ok hran
      rw [← Except.ok.inj hret]
      simp only [System.owed, hring]
      cases accepted <;> cases entry <;> simp [Ring.cancelled]
  | checkResult key =>
      obtain ⟨ran, hcheck, hret⟩ := bind_eq_ok hok
      obtain ⟨completions, -, hring⟩ := Ring.checkResult_eq_ok hcheck
      rw [← Except.ok.inj hret]
      simp [System.owed, hring]
  | enter => exact Nat.le_of_eq (owed_length_of_enter hok).symm
  | post i result =>
      simp only [System.exec] at hok
      split at hok
      · rw [← Except.ok.inj hok]
        simp [System.owed]
      · rw [← Except.ok.inj hok]
  | handle i => exact absurd rfl (hhandle i)
  | leave =>
      obtain rfl := Except.ok.inj hok
      exact Nat.le_refl _

theorem counters_eq_owed (h : s.Inv) :
    s.ring.active.toNat + s.ring.detached.toNat = s.owed.length := by
  rw [h.tally.active, h.tally.detached]
  exact length_owners_add s.owed

/-- A wait asks for something if there is something, and never for more. -/
theorem want_spec (h : s.Inv) :
    (if s.ring.idle then 0 else s.ring.want.toNat) ≤ s.owed.length ∧
      (s.owed ≠ [] → 1 ≤ if s.ring.idle then 0 else s.ring.want.toNat) := by
  have hcounted := h.counted
  have hsum := counters_eq_owed h
  by_cases hidle : s.ring.idle = true
  · have hzero := hcounted.idle.mp hidle
    rw [if_pos hidle]
    refine ⟨Nat.zero_le _, fun hne => absurd ?_ hne⟩
    exact List.eq_nil_of_length_eq_zero (by omega)
  · have hpos : 0 < s.ring.active.toNat + s.ring.detached.toNat := by
      refine Nat.pos_of_ne_zero fun hzero => hidle (hcounted.idle.mpr hzero)
    obtain ⟨hone, hle⟩ := hcounted.want hpos
    rw [if_neg hidle]
    exact ⟨by omega, fun _ => hone⟩

end Asked

/-! ## The invariant -/

structure Inv (op : MultiOp O E Out C) (r : Runtime O T C) : Prop where
  executor : Reach (outputMachine T) Any (r.executor, r.outputs)
  system : Reach (System.machine TaskId C) System.Orderly r.system
  waits : r.system.waiting = true → r.executor.phase = .waiting
  still : r.executor.phase = .waiting → r.executor.isDropping = false
  wakers : r.executor.wakers.Perm (r.system.ring.completions.wakers ++ r.elsewhere)
  holds : Holds op r.system.ring.completions r.system.occupant r.system.born r.held
  /-- A submission is gone before its task is, and before the task's output is sent. -/
  owners : ∀ (i : Nat) (h : Held O), r.held[i]? = some h → h.owner < r.executor.born ∧
    (h.dropped = false → (r.executor.task h.owner).future = .incomplete ∧
      (r.executor.task h.owner).stage ≠ .freed)
  asked : r.asked ≤ r.system.owed.length

variable {op : MultiOp O E Out C} {r r' : Runtime O T C}

theorem Inv.counted (h : Inv op r) : r.executor.Counted r.executor.loopRefs :=
  (sent_of_reach h.executor).1

theorem Inv.books (h : Inv op r) : r.system.Inv := .of_reach h.system

theorem Inv.waker_mem (h : Inv op r) {slot : Nat} {id : TaskId}
    (hwaker : r.system.ring.completions.waker slot = some id) : id ∈ r.executor.wakers :=
  h.wakers.mem_iff.mpr (List.mem_append_left _ (CompletionSet.mem_wakers.mpr ⟨slot, hwaker⟩))

theorem Inv.waker_live (h : Inv op r) {slot : Nat} {id : TaskId}
    (hwaker : r.system.ring.completions.waker slot = some id) :
    (r.executor.task id).stage = .live :=
  h.counted.live_of_mem
    (List.mem_append_left _ (List.mem_append_right _ (h.waker_mem hwaker)))

theorem Inv.call (h : Inv op r) {system : System TaskId C} (slot asked : Nat)
    (held : List (Held O)) (hsystem : Reach (System.machine TaskId C) System.Orderly system)
    (hwaiting : system.waiting = r.system.waiting)
    (hsettles : Settles r.executor (r.system.ring.completions.waker slot)
      (system.ring.completions.waker slot))
    (hcensus : ((system.ring.completions.waker slot).toList ++
      r.system.ring.completions.wakers).Perm
        ((r.system.ring.completions.waker slot).toList ++ system.ring.completions.wakers))
    (hholds : Holds op system.ring.completions system.occupant system.born held)
    (howners : ∀ (i : Nat) (g : Held O), held[i]? = some g → ∃ (j : Nat) (g' : Held O),
      r.held[j]? = some g' ∧ g.owner = g'.owner ∧ (g.dropped = false → g'.dropped = false))
    (hasked : asked ≤ system.owed.length) :
    Inv op { r.called system slot with held := held, asked := asked } ∧
      Undisturbed r.executor (r.called system slot).executor := by
  obtain ⟨hreach, hperm, hquiet⟩ := settle_spec h.executor hsettles h.wakers hcensus
  refine ⟨⟨hreach, hsystem, ?_, ?_, hperm, hholds, ?_, hasked⟩, hquiet⟩
  · intro hwait
    exact hquiet.phase.trans (h.waits (hwaiting ▸ hwait))
  · intro hphase
    exact hquiet.isDropping.trans (h.still (hquiet.phase ▸ hphase))
  · intro i g hg
    obtain ⟨j, g', hg', howner, hdropped⟩ := howners i g hg
    obtain ⟨hlt, hfuture⟩ := h.owners j g' hg'
    refine ⟨by rw [howner]; exact hquiet.born.symm ▸ hlt, fun hheld => ?_⟩
    obtain ⟨hincomplete, hstage⟩ := hfuture (hdropped hheld)
    rw [howner]
    exact ⟨(hquiet.future g'.owner).trans hincomplete, fun hfreed =>
      hstage ((hquiet.stage g'.owner).symm.trans hfreed)⟩

theorem owners_of_set {i : Nat} {h g : Held O} {held : List (Held O)} (hget : held[i]? = some h)
    (howner : g.owner = h.owner) (hdropped : g.dropped = false → h.dropped = false) (j : Nat)
    (g' : Held O) (hg' : (held.set i g)[j]? = some g') : ∃ (k : Nat) (g₀ : Held O),
      held[k]? = some g₀ ∧ g'.owner = g₀.owner ∧ (g'.dropped = false → g₀.dropped = false) := by
  rcases getElem?_set_cases hg' with ⟨-, rfl⟩ | ⟨-, hold⟩
  · exact ⟨i, h, hget, howner, hdropped⟩
  · exact ⟨j, g', hold, rfl, id⟩

end Inel.Runtime
