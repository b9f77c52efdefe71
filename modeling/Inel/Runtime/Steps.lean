import Inel.Runtime.Serving

/-!
# Whole runs of the runtime

What the executor's own moves leave alone, and the invariant over runs.
-/

namespace Inel.Runtime

open Transitions
open Reactor hiding Move Phase Stage
open Tasks (TaskId Executor)
open Tasks.Executor (outputMachine)

/-! ## Moves of the executor -/

section Moves

variable {T : Type} {s : Executor T} {move : Tasks.Move T} {id : TaskId}

theorem step_wakers (s : Executor T) (move : Tasks.Move T) :
    (s.step move).wakers = keeps s.wakers move := by
  have hschedule : ∀ (s : Executor T) (id : TaskId), (s.schedule id).wakers = s.wakers := by
    intro s id
    unfold Executor.schedule
    split <;> rfl
  cases move with
  | spawn blocking => exact hschedule _ _
  | wake id => exact hschedule _ _
  | wakeByRef id => exact hschedule _ _
  | next =>
      show s.next.wakers = s.wakers
      unfold Executor.next
      split <;> rfl
  | finish output =>
      rw [Executor.step]
      cases s.phase <;> rfl
  | endPoll =>
      rw [Executor.step]
      cases s.phase <;> rfl
  | _ => rfl

/-- A waker kept elsewhere is used up elsewhere. -/
theorem keeps_perm {wakers ring elsewhere : List TaskId} (h : wakers.Perm (ring ++ elsewhere))
    (hkept : ∀ id, move = .wake id ∨ move = .drop id → id ∈ elsewhere) :
    (keeps wakers move).Perm (ring ++ keeps elsewhere move) := by
  have herase : ∀ id ∈ elsewhere, (wakers.erase id).Perm (ring ++ elsewhere.erase id) := by
    intro id hid
    have hmiddle : (ring ++ elsewhere).Perm (id :: (ring ++ elsewhere.erase id)) :=
      ((List.perm_cons_erase hid).append_left ring).trans List.perm_middle
    simpa using (h.trans hmiddle).erase id
  cases move with
  | clone id => exact (h.cons id).trans List.perm_middle.symm
  | wake id => exact herase id (hkept id (Or.inl rfl))
  | drop id => exact herase id (hkept id (Or.inr rfl))
  | _ => exact h

/-- The executor waits once it has polled everyone, and no destructor is running. -/
theorem step_waits (hpermits : s.permits move = true) (hphase : s.phase ≠ .waiting)
    (hwaits : (s.step move).phase = .waiting) :
    move = .next ∧ (s.step move).isDropping = false := by
  cases move with
  | spawn blocking => exact absurd ((Executor.schedule_phase _ _).symm.trans hwaits) hphase
  | wake id => exact absurd ((Executor.schedule_phase _ _).symm.trans hwaits) hphase
  | wakeByRef id => exact absurd ((Executor.schedule_phase _ _).symm.trans hwaits) hphase
  | clone id => exact absurd hwaits hphase
  | drop id => exact absurd hwaits hphase
  | tryJoin id => exact absurd hwaits hphase
  | detach id => exact absurd hwaits hphase
  | free id => exact absurd hwaits hphase
  | run => exact Tasks.Phase.noConfusion hwaits
  | check =>
      simp only [Executor.step, Executor.check] at hwaits
      split at hwaits <;> exact Tasks.Phase.noConfusion hwaits
  | next =>
      refine ⟨rfl, ?_⟩
      simp only [Executor.permits, Bool.and_eq_true, Bool.not_eq_true'] at hpermits
      cases hqueue : s.queue with
      | nil =>
          have hnext : s.step .next = { s with phase := .waiting } := by
            simp [Executor.step, Executor.next, hqueue]
          rw [hnext]
          exact hpermits.2
      | cons id queue =>
          simp only [Executor.step, Executor.next, hqueue] at hwaits
          exact Tasks.Phase.noConfusion hwaits
  | finish output =>
      rw [Executor.step] at hwaits
      split at hwaits
      · exact absurd hwaits hphase
      · exact absurd hwaits hphase
  | endPoll =>
      rw [Executor.step] at hwaits
      split at hwaits
      · exact Tasks.Phase.noConfusion hwaits
      · exact absurd hwaits hphase
  | waited => exact Tasks.Phase.noConfusion hwaits

/-- A task is freed at the end of its destructor only. -/
theorem step_freed (hlt : id < s.born) (h : ((s.step move).task id).stage = .freed) :
    (s.task id).stage = .freed ∨ move = .free id := by
  have hdrop : ∀ (s : Executor T) (other : TaskId),
      ((s.rcDrop other).task id).stage = .freed → (s.task id).stage = .freed := by
    intro s other hfreed
    by_cases heq : id = other
    · subst heq
      simp only [Executor.rcDrop, Executor.task_update, Function.update_self] at hfreed
      split at hfreed
      · exact Tasks.Stage.noConfusion hfreed
      · exact hfreed
    · rwa [Executor.rcDrop, Executor.update_other _ heq] at hfreed
  cases move with
  | spawn blocking =>
      left
      have hfreed := hdrop _ _ h
      rw [stage_schedule] at hfreed
      rwa [show (s.allocate _).task id = s.task id from
        Function.update_of_ne (Nat.ne_of_lt hlt) _ _] at hfreed
  | clone other => exact Or.inl (stage_rcClone.symm.trans h)
  | wake other =>
      have hfreed : ((Executor.schedule { s with wakers := s.wakers.erase other } other).task
          id).stage = .freed := hdrop _ other h
      rw [stage_schedule] at hfreed
      exact Or.inl hfreed
  | wakeByRef other => exact Or.inl (stage_schedule.symm.trans h)
  | drop other => exact Or.inl (hdrop _ _ h)
  | tryJoin other =>
      left
      rw [← h]
      symm
      show ((s.update other fun task => { task with
        channel := { task.channel with output := none } }).task id).stage = _
      apply stage_update
      rfl
  | detach other =>
      left
      rw [← h]
      symm
      show ((s.update other fun task => { task with
        channel := { task.channel with output := none, receiver := false } }).task id).stage = _
      apply stage_update
      rfl
  | free other =>
      by_cases heq : id = other
      · exact Or.inr (by rw [heq])
      · left
        rwa [show (s.step (.free other)).task id = s.task id from
          Function.update_of_ne heq _ _] at h
  | next => exact Or.inl (stage_next.symm.trans h)
  | finish output =>
      left
      rw [Executor.step] at h
      split at h
      · rw [← h]
        symm
        apply stage_update
        rfl
      · exact h
  | endPoll =>
      left
      rw [Executor.step] at h
      split at h
      · exact hdrop _ _ (hdrop _ _ h)
      · exact h
  | _ => exact Or.inl h

theorem step_future (hpermits : s.permits move = true) (hlt : id < s.born)
    (hmove : ∀ output, ¬ s.Completes move id output) :
    ((s.step move).task id).future = (s.task id).future := by
  rcases Executor.face_step hpermits hlt hmove with hface | ⟨-, -, hfuture, -⟩
  · exact congrArg Prod.fst hface
  · exact hfuture

theorem step_born_le (s : Executor T) (move : Tasks.Move T) : s.born ≤ (s.step move).born := by
  rcases Executor.step_born s move with hsame | ⟨-, -, hmore⟩ <;> omega

end Moves

/-! ## Steps -/

variable {O E Out T C : Type} {op : MultiOp O E Out C} {r r' : Runtime O T C}

/-- What a move of the executor is allowed to be. -/
theorem task_allowed {move : Tasks.Move T} (hpermits : r.permits op (.task move) = true) :
    r.executor.permits move = true ∧ r.executor.phase ≠ .waiting ∧
      (∀ id, move = .wake id ∨ move = .drop id → id ∈ r.elsewhere) ∧
      (∀ output id, move = .finish output → r.executor.phase = .polling id →
        r.letGo id = true) ∧
      ∀ id, move = .free id → r.letGo id = true := by
  simp only [permits, allows, Bool.and_eq_true, bne_iff_ne] at hpermits
  obtain ⟨⟨⟨hmove, hphase⟩, hrest⟩, -⟩ := hpermits
  refine ⟨hmove, hphase, ?_, ?_, ?_⟩
  · rintro id (rfl | rfl) <;> simpa using hrest
  · rintro output id rfl hpolling
    simpa [hpolling] using hrest
  · rintro id rfl
    simpa using hrest

theorem letGo_spec {id : TaskId} (h : r.letGo id = true) {i : Nat} {g : Held O}
    (hg : r.held[i]? = some g) (howner : g.owner = id) : g.dropped = true := by
  have hall := List.all_eq_true.mp h g (List.mem_of_getElem? hg)
  simpa [howner] using hall

theorem Inv.task {move : Tasks.Move T} (h : Inv op r)
    (hpermits : r.permits op (.task move) = true)
    (hok : r.exec op (.task move) = .ok r') : Inv op r' := by
  obtain ⟨hmove, hphase, hkept, hfinish, hfree⟩ := task_allowed hpermits
  obtain rfl := Except.ok.inj hok
  have hidle : r.system.waiting = false := by
    cases hwaiting : r.system.waiting with
    | false => rfl
    | true => exact absurd (h.waits hwaiting) hphase
  refine ⟨reach_step h.executor hmove, h.system, ?_, ?_, ?_, h.holds, ?_, h.asked⟩
  · intro hwaiting
    rw [hidle] at hwaiting
    exact Bool.noConfusion hwaiting
  · exact fun hwaits => (step_waits hmove hphase hwaits).2
  · rw [step_wakers]
    exact keeps_perm h.wakers hkept
  · intro i g hg
    obtain ⟨hlt, hfuture⟩ := h.owners i g hg
    refine ⟨Nat.lt_of_lt_of_le hlt (step_born_le r.executor move), fun hheld => ?_⟩
    obtain ⟨hincomplete, hstage⟩ := hfuture hheld
    have hheld' : r.letGo g.owner = true → False := fun hgone => by
      rw [letGo_spec hgone hg rfl] at hheld
      exact Bool.noConfusion hheld
    refine ⟨?_, fun hfreed => ?_⟩
    · rw [step_future hmove hlt]
      · exact hincomplete
      · rintro output ⟨rfl, hpolling⟩
        exact hheld' (hfinish output g.owner rfl hpolling)
    · rcases step_freed hlt hfreed with hold | rfl
      · exact hstage hold
      · exact hheld' (hfree g.owner rfl)

theorem Inv.create {value : O} (h : Inv op r) (hpermits : r.permits op (.create value) = true)
    (hok : r.exec op (.create value) = .ok r') : Inv op r' ∧ r'.executor = r.executor ∧
      r'.system = r.system ∧ ∃ owner, r'.held = r.held ++ [Held.new owner value] := by
  simp only [exec] at hok
  simp only [permits, allows, Bool.and_eq_true] at hpermits
  split at hok
  · next id hphase =>
      simp only [hphase, beq_iff_eq] at hpermits
      obtain rfl := Except.ok.inj hok
      refine ⟨{ h with holds := h.holds.create id value, owners := ?_ }, rfl, rfl, id, rfl⟩
      intro i g hg
      rcases Nat.lt_or_ge i r.held.length with hlt | hge
      · rw [List.getElem?_append_left hlt] at hg
        exact h.owners i g hg
      · rw [List.getElem?_append_right hge] at hg
        obtain rfl := List.mem_singleton.mp (List.mem_of_getElem? hg)
        have hmem : id ∈ r.executor.queue ++ r.executor.wakers ++ r.executor.loopRefs := by
          simp [Executor.loopRefs, hphase]
        refine ⟨h.counted.known id hmem, fun _ => ⟨hpermits.1, fun hfreed => ?_⟩⟩
        have hlive := h.counted.live_of_mem hmem
        exact Tasks.Stage.noConfusion (hfreed.symm.trans hlive)
  · next hphase =>
      exfalso
      have hfalse := hpermits.1
      split at hfalse
      · next id hid => exact hphase id hid
      · exact Bool.noConfusion hfalse

theorem Inv.plain {system : System TaskId C} (h : Inv op r) (asked : Nat)
    (hsystem : Reach (System.machine TaskId C) System.Orderly system)
    (hwaiting : system.waiting = true → r.executor.phase = .waiting)
    (hset : system.ring.completions = r.system.ring.completions)
    (hoccupant : system.occupant = r.system.occupant) (hborn : system.born = r.system.born)
    (hasked : asked ≤ system.owed.length) : Inv op { r with system := system, asked := asked } := by
  refine { h with
    system := hsystem, waits := hwaiting, wakers := ?_, holds := ?_, asked := hasked }
  · rw [hset]
    exact h.wakers
  · rw [hset, hoccupant, hborn]
    exact h.holds

theorem Inv.submitDetached (h : Inv op r) (hpermits : r.permits op .submitDetached = true)
    (hcalm : r.Calm op .submitDetached) (hok : r.exec op .submitDetached = .ok r') :
    Inv op r' ∧ r'.executor = r.executor ∧ r'.held = r.held ∧
      r'.system.ring.completions = r.system.ring.completions ∧
      r'.system.occupant = r.system.occupant ∧ r'.asked = r.asked := by
  obtain ⟨system, hexec, hret⟩ := bind_eq_ok hok
  obtain rfl := Except.ok.inj hret
  have hreach := h.follow hpermits hcalm rfl hexec
  have hasked := h.asked.trans (owed_length_le hexec (by simp))
  obtain ⟨ring, hring, hback⟩ := bind_eq_ok hexec
  have hqueue := Ring.submitDetached_eq_ok hring
  obtain rfl := Except.ok.inj hback
  refine ⟨h.plain r.asked hreach h.waits ?_ rfl rfl hasked, rfl, rfl, ?_, rfl, rfl⟩ <;>
    rw [hqueue]

/-- The wait hands over the queue and asks for what is outstanding. -/
theorem Inv.enter (h : Inv op r) (hpermits : r.permits op .enter = true)
    (hcalm : r.Calm op .enter) (hok : r.exec op .enter = .ok r') :
    Inv op r' ∧ r'.executor = r.executor ∧ r'.held = r.held ∧
      r'.system.ring.completions = r.system.ring.completions ∧
      r'.system.occupant = r.system.occupant ∧ r'.system.waiting = true ∧
      r'.system.owed.length = r.system.owed.length ∧
      r'.asked = if r.system.ring.idle then 0 else r.system.ring.want.toNat := by
  obtain ⟨system, hexec, hret⟩ := bind_eq_ok hok
  obtain rfl := Except.ok.inj hret
  have hreach := h.follow hpermits hcalm rfl hexec
  have hlength := owed_length_of_enter hexec
  have hwant := (want_spec h.books).1
  simp only [permits, allows, Bool.and_eq_true, beq_iff_eq] at hpermits
  have hsame : system.ring.completions = r.system.ring.completions ∧
      system.occupant = r.system.occupant ∧ system.born = r.system.born ∧
      system.waiting = true := by
    cases hidle : r.system.ring.idle with
    | true =>
        obtain rfl := Except.ok.inj ((System.exec_enter_idle _ hidle).symm.trans hexec)
        exact ⟨rfl, rfl, rfl, rfl⟩
    | false =>
        obtain rfl := Except.ok.inj ((System.exec_enter _ hidle).symm.trans hexec)
        exact ⟨rfl, rfl, rfl, rfl⟩
  obtain ⟨hset, hoccupant, hborn, hwaiting⟩ := hsame
  refine ⟨h.plain _ hreach (fun _ => hpermits.1) hset hoccupant hborn ?_, rfl, rfl, hset,
    hoccupant, hwaiting, hlength, rfl⟩
  rw [hlength]
  exact hwant

theorem Inv.post {i : Nat} {result : RingResult} (h : Inv op r)
    (hpermits : r.permits op (.post i result) = true) (hcalm : r.Calm op (.post i result))
    (hok : r.exec op (.post i result) = .ok r') :
    Inv op r' ∧ r'.executor = r.executor ∧ r'.held = r.held ∧
      r'.system.ring = r.system.ring ∧ r'.system.occupant = r.system.occupant ∧
      r'.asked = r.asked := by
  obtain ⟨system, hexec, hret⟩ := bind_eq_ok hok
  obtain rfl := Except.ok.inj hret
  have hreach := h.follow hpermits hcalm rfl hexec
  have hasked := h.asked.trans (owed_length_le hexec (by simp))
  have hsame : system.ring = r.system.ring ∧ system.occupant = r.system.occupant ∧
      system.born = r.system.born ∧ system.waiting = r.system.waiting := by
    simp only [System.exec] at hexec
    split at hexec <;> rw [← Except.ok.inj hexec] <;> exact ⟨rfl, rfl, rfl, rfl⟩
  obtain ⟨hring, hoccupant, hborn, hwaiting⟩ := hsame
  exact ⟨h.plain r.asked hreach (fun hwait => h.waits (hwaiting ▸ hwait)) (by rw [hring])
    hoccupant hborn hasked, rfl, rfl, hring, hoccupant, rfl⟩

theorem Inv.leave (h : Inv op r) (hpermits : r.permits op .leave = true)
    (hcalm : r.Calm op .leave) (hok : r.exec op .leave = .ok r') :
    Inv op r' ∧ r'.executor = r.executor.step .waited ∧ r'.held = r.held ∧
      r'.system = { r.system with waiting := false } ∧ r.asked = 0 ∧ r'.asked = 0 := by
  obtain ⟨system, hexec, hret⟩ := bind_eq_ok hok
  obtain rfl := Except.ok.inj hret
  have hreach := h.follow hpermits hcalm rfl hexec
  simp only [permits, allows, Bool.and_eq_true, beq_iff_eq, Bool.not_eq_true', command,
    Option.all_some, System.permits] at hpermits
  obtain ⟨⟨hasked, hdropping⟩, hwaiting⟩ := hpermits
  obtain rfl := Except.ok.inj hexec
  have hphase := h.waits hwaiting
  have hmove : r.executor.permits .waited = true := by
    simp [Executor.permits, hphase, hdropping]
  refine ⟨⟨reach_step h.executor hmove, hreach, ?_, ?_, h.wakers, h.holds, h.owners, h.asked⟩,
    rfl, rfl, rfl, hasked, hasked⟩
  · intro hwait
    exact Bool.noConfusion hwait
  · intro hwait
    exact Tasks.Phase.noConfusion hwait

theorem Inv.step {move : Move O T} (h : Inv op r) (hpermits : r.permits op move = true)
    (hcalm : r.Calm op move) (hok : r.exec op move = .ok r') : Inv op r' := by
  cases move with
  | task move => exact h.task hpermits hok
  | create value => exact (h.create hpermits hok).1
  | poll i slot => exact (h.poll hpermits hcalm hok).2.1
  | pollNext i slot => exact (h.pollNext hpermits hcalm hok).2.1
  | drop i => exact (h.drop hpermits hcalm hok).2.1
  | submitDetached => exact (h.submitDetached hpermits hcalm hok).1
  | enter => exact (h.enter hpermits hcalm hok).1
  | post i result => exact (h.post hpermits hcalm hok).1
  | handle i => exact (h.handle hpermits hcalm hok).2.2.2.2.2.1
  | leave => exact (h.leave hpermits hcalm hok).1

theorem start_inv {r : Runtime O T C} (h : (machine op T).init r) : Inv op r := by
  obtain ⟨task, options, entries, occupant, rfl⟩ := h
  refine ⟨.start ⟨⟨task, rfl⟩, rfl⟩, .start ⟨options, entries, occupant, rfl⟩, ?_, ?_,
    List.Perm.refl _, ?_, ?_, Nat.zero_le _⟩
  · intro hwaiting
    exact Bool.noConfusion hwaiting
  · intro hwaiting
    exact Tasks.Phase.noConfusion hwaiting
  · exact ⟨by simp, by simp [Ring.build], by simp [Ring.build], by simp, by simp⟩
  · simp

theorem Inv.of_reach (h : Reach (machine op T) (Calm op) r) : Inv op r :=
  h.invariant (fun _ => start_inv) fun _ _ _ hinv => hinv.step

end Inel.Runtime
