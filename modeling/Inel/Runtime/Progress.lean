import Inel.Runtime.Steps

/-!
# Nobody is forgotten

A task whose future is not complete is polled, queued, or has a submission of its own
outstanding, whose completion puts it into the queue. So a wait is entered with
something to wait for, and no future is dropped before it is complete.
-/

namespace Inel.Runtime

open Transitions
open Reactor hiding Move Phase Stage
open Tasks (TaskId Executor)

variable {O E Out T C : Type}

/-- No result came yet, and one will. -/
def awaited : Option (Mailbox C) → Bool
  | some (.live [] true) => true
  | _ => false

theorem awaited_iff {box : Option (Mailbox C)} :
    awaited box = true ↔ box = some (.live [] true) := by
  unfold awaited
  split
  · simp
  · next hne => simpa using hne

/-- A submission of the task's has no result yet. -/
def outstanding (r : Runtime O T C) (id : TaskId) : Bool :=
  r.held.any fun held => held.owner == id &&
    held.key.any fun key => awaited (r.system.ring.completions.mailbox key.asUsize)

theorem outstanding_iff {r : Runtime O T C} {id : TaskId} : r.outstanding id = true ↔
    ∃ (i : Nat) (held : Held O) (key : Key), r.held[i]? = some held ∧ held.owner = id ∧
      held.key = some key ∧
      r.system.ring.completions.mailbox key.asUsize = some (.live [] true) := by
  simp only [outstanding, List.any_eq_true, Bool.and_eq_true, beq_iff_eq, Option.any_eq_true,
    awaited_iff]
  constructor
  · rintro ⟨held, hmem, howner, key, hkey, hbox⟩
    obtain ⟨i, hget⟩ := List.getElem?_of_mem hmem
    exact ⟨i, held, key, hget, howner, hkey, hbox⟩
  · rintro ⟨i, held, key, hget, howner, hkey, hbox⟩
    exact ⟨held, List.mem_of_getElem? hget, howner, key, hkey, hbox⟩

/-- A poll that leaves its future incomplete leaves it something to wait for, or has
woken it already. -/
def awaits (r : Runtime O T C) : Move O T → Bool
  | .task .endPoll =>
      match r.executor.phase with
      | .polling id => (r.executor.task id).future == .complete || id ∈ r.executor.queue ||
          r.outstanding id
      | _ => true
  | _ => true

/-- The runs in which futures await what they hold. -/
def Awaiting (op : MultiOp O E Out C) (r : Runtime O T C) (move : Move O T) : Prop :=
  r.Calm op move ∧ r.awaits move = true

def Attended (r : Runtime O T C) (id : TaskId) : Prop :=
  r.executor.phase = .polling id ∨ id ∈ r.executor.queue ∨ r.outstanding id = true

variable {op : MultiOp O E Out C} {r r' : Runtime O T C} {id : TaskId}

/-- What is outstanding has its task's waker in the ring. -/
theorem Inv.outstanding_waker (h : Inv op r) (hid : r.outstanding id = true) :
    ∃ key : Key, r.system.ring.completions.mailbox key.asUsize = some (.live [] true) ∧
      r.system.ring.completions.waker key.asUsize = some id := by
  obtain ⟨i, held, key, hget, rfl, hkey, hbox⟩ := outstanding_iff.mp hid
  obtain ⟨-, -, -, -, hwaker⟩ := h.held_live hget hkey
  obtain ⟨waker, hkept⟩ := CompletionSet.waker_of_expecting hbox
  exact ⟨key, hbox, by rw [hkept, hwaker waker hkept]⟩

theorem Inv.attended_live (h : Inv op r) (hid : r.Attended id) :
    (r.executor.task id).stage = .live := by
  rcases hid with hphase | hqueue | hout
  · exact h.counted.live_of_mem (by simp [Executor.loopRefs, hphase])
  · exact h.counted.live_of_mem (by simp [hqueue])
  · obtain ⟨key, -, hwaker⟩ := h.outstanding_waker hout
    exact h.waker_live hwaker

/-! ## Steps -/

theorem Attended.keep (h : r.Attended id) (hquiet : Undisturbed r.executor r'.executor)
    (hout : r.outstanding id = true → r'.Attended id) : r'.Attended id := by
  rcases h with hphase | hqueue | hold
  · exact Or.inl (hquiet.phase.trans hphase)
  · exact Or.inr (Or.inl (hquiet.queue id hqueue))
  · exact hout hold

theorem outstanding_set {i : Nat} {held held' : Held O} {box : Option (Mailbox C)} {key : Key}
    (h : Inv op r) (hget : r.held[i]? = some held) (hkey : held.key = some key)
    (hupd : r.system.ring.completions.Touches r'.system.ring.completions key.asUsize box)
    (hheld : r'.held = r.held.set i held') (hne : id ≠ held.owner)
    (hout : r.outstanding id = true) : r'.outstanding id = true := by
  obtain ⟨j, g, key', hg, howner, hkey', hbox⟩ := outstanding_iff.mp hout
  have hji : j ≠ i := by
    rintro rfl
    obtain rfl := Option.some.inj (hg.symm.trans hget)
    exact hne howner.symm
  refine outstanding_iff.mpr ⟨j, g, key', ?_, howner, hkey', ?_⟩
  · rwa [hheld, List.getElem?_set_ne (Ne.symm hji)]
  · rwa [hupd.others _ (h.holds.slot_ne hget hkey hg hkey' hji)]

theorem outstanding_same {i : Nat} {held held' : Held O} (hget : r.held[i]? = some held)
    (hboxes : ∀ slot, r.system.ring.completions.mailbox slot = some (.live [] true) →
      r'.system.ring.completions.mailbox slot = some (.live [] true))
    (hheld : r'.held = r.held.set i held') (hne : id ≠ held.owner)
    (hout : r.outstanding id = true) : r'.outstanding id = true := by
  obtain ⟨j, g, key', hg, howner, hkey', hbox⟩ := outstanding_iff.mp hout
  have hji : j ≠ i := by
    rintro rfl
    obtain rfl := Option.some.inj (hg.symm.trans hget)
    exact hne howner.symm
  refine outstanding_iff.mpr ⟨j, g, key', ?_, howner, hkey', hboxes _ hbox⟩
  rwa [hheld, List.getElem?_set_ne (Ne.symm hji)]

theorem PollSpec.attended {streams : Bool} {i : Nat} {held held' : Held O} (h : Inv op r)
    (hget : r.held[i]? = some held) (hphase : r.executor.phase = .polling held.owner)
    (hquiet : Undisturbed r.executor r'.executor) (hspec : PollSpec r r' streams held held')
    (hheld : r'.held = r.held.set i held') (hid : r.Attended id) : r'.Attended id := by
  by_cases hown : id = held.owner
  · exact Or.inl (by rw [hquiet.phase, hphase, hown])
  · refine hid.keep hquiet fun hout => Or.inr (Or.inr ?_)
    cases hspec with
    | submits key hstate hins hkey hid huses hoccupant hborn =>
        refine outstanding_same hget (fun slot hbox => ?_) hheld hown hout
        have hne : slot ≠ key.asUsize := by
          rintro rfl
          simp [hins.vacant] at hbox
        rwa [hins.others slot hne]
    | checks key pending more uses hkey hbox hannounced htouches =>
        exact outstanding_set h hget hkey htouches hheld hown hout
    | ends hkey hsystem hsame =>
        exact outstanding_same hget (fun slot hbox => by rwa [hsystem]) hheld hown hout

theorem attended_drop {i : Nat} {held held' : Held O} (h : Inv op r)
    (hget : r.held[i]? = some held) (hacts : Acts r.executor held.owner)
    (hquiet : Undisturbed r.executor r'.executor) (hspec : DropSpec op r r' held)
    (hheld : r'.held = r.held.set i held') (hid : r.Attended id) : r'.Attended id := by
  by_cases hown : id = held.owner
  · have hlive := h.attended_live hid
    rcases hacts with hphase | ⟨-, hstage⟩
    · exact Or.inl (by rw [hquiet.phase, hphase, hown])
    · rw [← hown, hlive] at hstage
      exact Tasks.Stage.noConfusion hstage
  · refine hid.keep hquiet fun hout => Or.inr (Or.inr ?_)
    cases hspec with
    | cancels key pending more hkey hbox htouches hoccupant =>
        exact outstanding_set h hget hkey htouches hheld hown hout
    | leaves hkey hsystem =>
        exact outstanding_same hget (fun slot hbox => by rwa [hsystem]) hheld hown hout

theorem attended_handle {i : Nat} {entry : Entry Request} {result : RingResult} (h : Inv op r)
    (hquiet : Undisturbed r.executor r'.executor)
    (hhandled : Handled r.system r'.system i entry result) (hheld : r'.held = r.held)
    (hqueued : ∀ id, .wake id ∈ effects r.system i → id ∈ r'.executor.queue)
    (hid : r.Attended id) : r'.Attended id := by
  refine hid.keep hquiet fun hout => ?_
  obtain ⟨j, g, key', hg, howner, hkey', hbox'⟩ := outstanding_iff.mp hout
  have hstays : r'.system.ring.completions.mailbox key'.asUsize = some (.live [] true) →
      r'.Attended id := fun hbox =>
    Or.inr (Or.inr (outstanding_iff.mpr ⟨j, g, key', hheld ▸ hg, howner, hkey', hbox⟩))
  cases hhandled with
  | ignored hignored heffects hset => exact hstays (by rw [hset]; exact hbox')
  | live key pending waker hentry hseat hbox hwaker heffects hset =>
      by_cases hslot : key'.asUsize = key.asUsize
      · obtain ⟨-, -, -, -, hkept⟩ := h.held_live hg hkey'
        obtain rfl : waker = g.owner := hkept waker (hslot ▸ hwaker)
        exact Or.inr (Or.inl (howner ▸ hqueued _ (by simp [heffects])))
      · exact hstays (by rw [hset.others _ hslot]; exact hbox')
  | cancelled key cancel hentry hseat hbox heffects hset =>
      have hslot : key'.asUsize ≠ key.asUsize := by
        intro heq
        rw [heq, hbox] at hbox'
        simp at hbox'
      exact hstays (by rw [hset.others _ hslot]; exact hbox')

/-- A future is polled until its poll returns. -/
theorem step_polling {s : Executor T} {move : Tasks.Move T} (hpermits : s.permits move = true)
    (hphase : s.phase = .polling id) :
    (s.step move).phase = .polling id ∨ move = .endPoll := by
  cases move with
  | spawn blocking => exact Or.inl ((Executor.schedule_phase _ _).trans hphase)
  | wake id => exact Or.inl ((Executor.schedule_phase _ _).trans hphase)
  | wakeByRef id => exact Or.inl ((Executor.schedule_phase _ _).trans hphase)
  | run => simp [Executor.permits, hphase] at hpermits
  | check => simp [Executor.permits, hphase] at hpermits
  | next => simp [Executor.permits, hphase] at hpermits
  | waited => simp [Executor.permits, hphase] at hpermits
  | finish output =>
      left
      rw [Executor.step, hphase]
      exact hphase
  | endPoll => exact Or.inr rfl
  | _ => exact Or.inl hphase

theorem attended_task {move : Tasks.Move T} (h : Inv op r)
    (hpermits : r.permits op (.task move) = true) (hawaits : r.awaits (.task move) = true)
    (hok : r.exec op (.task move) = .ok r')
    (hall : ∀ id < r.executor.born, (r.executor.task id).future = .incomplete → r.Attended id)
    (hlt : id < r'.executor.born) (hfuture : (r'.executor.task id).future = .incomplete) :
    r'.Attended id := by
  obtain ⟨hmove, -, -, -, -⟩ := task_allowed hpermits
  obtain rfl := Except.ok.inj hok
  have hstepped := h.counted.stepped hmove
  by_cases hold : id < r.executor.born
  · have hopen : ∀ output, ¬ r.executor.Completes move id output := by
      rintro output ⟨rfl, hphase⟩
      have hface : ((r.executor.step (.finish output)).face id).1 = .complete := by
        rw [Executor.step, hphase, Executor.face_send]
      exact Tasks.FutureState.noConfusion (hface.symm.trans hfuture)
    have hbefore : (r.executor.task id).future = .incomplete :=
      (step_future hmove hold hopen).symm.trans hfuture
    rcases hall id hold hbefore with hphase | hqueue | hout
    · rcases step_polling hmove hphase with hsame | rfl
      · exact Or.inl hsame
      · simp only [awaits, hphase, Bool.or_eq_true, beq_iff_eq, decide_eq_true_eq] at hawaits
        rcases hawaits with (hdone | hqueued) | hout
        · rw [hbefore] at hdone
          exact Tasks.FutureState.noConfusion hdone
        · right
          left
          by_contra hgone
          simpa using (hstepped.leaves id hqueued hgone).1
        · exact Or.inr (Or.inr hout)
    · by_cases hqueue' : id ∈ (r.executor.step move).queue
      · exact Or.inr (Or.inl hqueue')
      · exact Or.inl (hstepped.leaves id hqueue hqueue').2.1
    · exact Or.inr (Or.inr hout)
  · rcases Executor.step_born r.executor move with hsame | ⟨blocking, rfl, hmore⟩
    · exact absurd (hsame ▸ hlt) hold
    · have hle : id < r.executor.born + 1 := Nat.lt_of_lt_of_eq hlt hmore
      obtain rfl : id = r.executor.born :=
        Nat.le_antisymm (Nat.lt_succ_iff.mp hle) (Nat.not_lt.mp hold)
      right
      left
      have hmade := h.counted.allocate ⟨false, 1, .live, .incomplete, ⟨none, 0, true⟩, blocking⟩
        rfl rfl rfl
      exact (hmade.schedule (List.mem_append_right _ List.mem_cons_self)).2

/-- Every task whose future is not complete is attended to. -/
theorem attended_step {move : Move O T} (h : Inv op r) (hpermits : r.permits op move = true)
    (hcond : Awaiting op r move) (hok : r.exec op move = .ok r')
    (hall : ∀ id < r.executor.born, (r.executor.task id).future = .incomplete → r.Attended id) :
    ∀ id < r'.executor.born, (r'.executor.task id).future = .incomplete → r'.Attended id := by
  intro id hlt hfuture
  obtain ⟨hcalm, hawaits⟩ := hcond
  have hbefore : ∀ {s : Runtime O T C}, Undisturbed r.executor s.executor →
      id < s.executor.born → (s.executor.task id).future = .incomplete → r.Attended id :=
    fun hquiet hlt hfuture => hall id (hquiet.born ▸ hlt) ((hquiet.future id).symm.trans hfuture)
  cases move with
  | task move => exact attended_task h hpermits hawaits hok hall hlt hfuture
  | create value =>
      obtain ⟨-, hexecutor, hsystem, owner, hheld⟩ := h.create hpermits hok
      have hquiet : Undisturbed r.executor r'.executor := by
        rw [hexecutor]
        exact .refl _
      refine (hbefore hquiet hlt hfuture).keep hquiet fun hout => Or.inr (Or.inr ?_)
      obtain ⟨j, g, key, hg, hrest⟩ := outstanding_iff.mp hout
      refine outstanding_iff.mpr ⟨j, g, key, ?_, by rwa [hsystem]⟩
      rw [hheld, List.getElem?_append_left (List.getElem?_eq_some_iff.mp hg).1, hg]
  | poll i slot =>
      obtain ⟨⟨held, held', hget, hphase, -, hspec, hheld, -, -⟩, -, hquiet⟩ :=
        h.poll hpermits hcalm hok
      exact hspec.attended h hget hphase hquiet hheld (hbefore hquiet hlt hfuture)
  | pollNext i slot =>
      obtain ⟨⟨held, held', hget, hphase, -, hspec, hheld, -, -⟩, -, hquiet⟩ :=
        h.pollNext hpermits hcalm hok
      exact hspec.attended h hget hphase hquiet hheld (hbefore hquiet hlt hfuture)
  | drop i =>
      obtain ⟨⟨held, held', hget, hacts, -, hspec, hheld, -⟩, -, hquiet⟩ :=
        h.drop hpermits hcalm hok
      exact attended_drop h hget hacts hquiet hspec hheld (hbefore hquiet hlt hfuture)
  | submitDetached =>
      obtain ⟨-, hexecutor, hheld, hset, -, -⟩ := h.submitDetached hpermits hcalm hok
      have hquiet : Undisturbed r.executor r'.executor := by
        rw [hexecutor]
        exact .refl _
      refine (hbefore hquiet hlt hfuture).keep hquiet fun hout => Or.inr (Or.inr ?_)
      rwa [outstanding, hheld, hset]
  | enter =>
      obtain ⟨-, hexecutor, hheld, hset, -⟩ := h.enter hpermits hcalm hok
      have hquiet : Undisturbed r.executor r'.executor := by
        rw [hexecutor]
        exact .refl _
      refine (hbefore hquiet hlt hfuture).keep hquiet fun hout => Or.inr (Or.inr ?_)
      rwa [outstanding, hheld, hset]
  | post i result =>
      obtain ⟨-, hexecutor, hheld, hring, -, -⟩ := h.post hpermits hcalm hok
      have hquiet : Undisturbed r.executor r'.executor := by
        rw [hexecutor]
        exact .refl _
      refine (hbefore hquiet hlt hfuture).keep hquiet fun hout => Or.inr (Or.inr ?_)
      rwa [outstanding, hheld, hring]
  | handle i =>
      obtain ⟨⟨entry, result, rest, hget, hhandled⟩, hheld, -, -, hqueued, -, hquiet⟩ :=
        h.handle hpermits hcalm hok
      exact attended_handle h hquiet hhandled hheld hqueued (hbefore hquiet hlt hfuture)
  | leave =>
      obtain ⟨-, hexecutor, hheld, hsystem, -, -⟩ := h.leave hpermits hcalm hok
      rw [hexecutor] at hlt hfuture
      have hwaiting : r.system.waiting = true := by
        simp only [permits, command, Option.all_some, Bool.and_eq_true, System.permits] at hpermits
        exact hpermits.2
      rcases hall id hlt hfuture with hphase | hqueue | hout
      · rw [h.waits hwaiting] at hphase
        exact Tasks.Phase.noConfusion hphase
      · exact Or.inr (Or.inl (by rw [hexecutor]; exact hqueue))
      · refine Or.inr (Or.inr ?_)
        rwa [outstanding, hheld, hsystem]

theorem attended_of_reach (h : Reach (machine op T) (Awaiting op) r) : Inv op r ∧
    ∀ id < r.executor.born, (r.executor.task id).future = .incomplete → r.Attended id := by
  refine h.invariant (I := fun r => Inv op r ∧ ∀ id < r.executor.born,
    (r.executor.task id).future = .incomplete → r.Attended id) ?_ ?_
  · intro r hinit
    refine ⟨start_inv hinit, ?_⟩
    obtain ⟨task, options, entries, occupant, rfl⟩ := hinit
    intro id hlt
    exact absurd hlt (Nat.not_lt_zero id)
  · rintro r move r' ⟨hinv, hall⟩ hpermits hcond hok
    exact ⟨hinv.step hpermits hcond.1 hok, attended_step hinv hpermits hcond hok hall⟩

/-! ## The wait -/

/-- Between the last poll and the wait nobody is queued. -/
theorem queue_before_wait (h : Reach (machine op T) (Calm op) r)
    (hphase : r.executor.phase = .waiting) (hwaiting : r.system.waiting = false) :
    r.executor.queue = [] := by
  have hinv : Inv op r ∧ (r.executor.phase = .waiting → r.system.waiting = false →
      r.executor.queue = []) := by
    refine h.invariant (I := fun r => Inv op r ∧ (r.executor.phase = .waiting →
      r.system.waiting = false → r.executor.queue = [])) ?_ ?_
    · intro r hinit
      refine ⟨start_inv hinit, ?_⟩
      obtain ⟨task, options, entries, occupant, rfl⟩ := hinit
      exact fun _ _ => rfl
    · rintro r move r' ⟨hinv, hold⟩ (hpermits : r.permits op move = true) hcalm hok
      refine ⟨hinv.step hpermits hcalm hok, fun hphase' hwaiting' => ?_⟩
      cases move with
      | task move =>
          obtain ⟨hmove, hphase, -, -, -⟩ := task_allowed hpermits
          obtain rfl := Except.ok.inj hok
          exact (hinv.counted.stepped hmove).waits hphase hphase'
      | create value =>
          obtain ⟨-, hexecutor, hsystem, -⟩ := hinv.create hpermits hok
          rw [hexecutor] at hphase' ⊢
          exact hold hphase' (hsystem ▸ hwaiting')
      | poll i slot =>
          obtain ⟨⟨held, held', -, hphase, -⟩, -, hquiet⟩ := hinv.poll hpermits hcalm hok
          rw [hquiet.phase, hphase] at hphase'
          exact Tasks.Phase.noConfusion hphase'
      | pollNext i slot =>
          obtain ⟨⟨held, held', -, hphase, -⟩, -, hquiet⟩ := hinv.pollNext hpermits hcalm hok
          rw [hquiet.phase, hphase] at hphase'
          exact Tasks.Phase.noConfusion hphase'
      | drop i =>
          obtain ⟨⟨held, held', -, hacts, -⟩, -, hquiet⟩ := hinv.drop hpermits hcalm hok
          rw [hquiet.phase] at hphase'
          rcases hacts with hphase | ⟨hphase, -⟩
          · rw [hphase] at hphase'
            exact Tasks.Phase.noConfusion hphase'
          · exact absurd hphase' hphase
      | submitDetached =>
          obtain ⟨-, hexecutor, -⟩ := hinv.submitDetached hpermits hcalm hok
          simp only [permits, allows, Bool.and_eq_true, bne_iff_ne] at hpermits
          exact absurd (hexecutor ▸ hphase') hpermits.1.2
      | enter =>
          obtain ⟨-, -, -, -, -, hentered, -⟩ := hinv.enter hpermits hcalm hok
          rw [hentered] at hwaiting'
          exact Bool.noConfusion hwaiting'
      | post i result =>
          obtain ⟨system, hexec, hret⟩ := bind_eq_ok hok
          obtain rfl := Except.ok.inj hret
          have hsame : system.waiting = r.system.waiting := by
            simp only [System.exec] at hexec
            split at hexec <;> rw [← Except.ok.inj hexec]
          exact hold hphase' (hsame ▸ hwaiting')
      | handle i =>
          obtain ⟨-, -, -, hsame, -⟩ := hinv.handle hpermits hcalm hok
          simp only [permits, command, Option.all_some, Bool.and_eq_true, System.permits]
            at hpermits
          rw [hsame, hpermits.2.1] at hwaiting'
          exact Bool.noConfusion hwaiting'
      | leave =>
          obtain ⟨-, hexecutor, -⟩ := hinv.leave hpermits hcalm hok
          rw [hexecutor] at hphase'
          exact Tasks.Phase.noConfusion hphase'
  exact hinv.2 hphase hwaiting

theorem owed_of_awaited {s : System TaskId C} (h : s.Inv) {key : Key}
    (hbox : s.ring.completions.mailbox key.asUsize = some (.live [] true)) :
    ∃ entry ∈ s.owed, entry.userData = key.asU64 := by
  have hexpects : (s.ring.completions.mailbox key.asUsize).any Mailbox.expects = true := by
    simp [hbox, Mailbox.expects]
  obtain ⟨entry, hentry, howner⟩ := mem_owners.mp (h.keyed.cover _ hexpects)
  exact ⟨entry, hentry, (h.keyed.key_of_owner hentry howner (by simp [hbox]) rfl).1⟩

/-- A future that is not complete is polled, is queued, or awaits an entry whose
completion wakes it. The wait asks for no more completions than the kernel owes, and
for at least one as long as a future is not complete. -/
theorem never_stuck (h : Reach (machine op T) (Awaiting op) r) :
    (∀ id < r.executor.born, (r.executor.task id).future = .incomplete →
      (r.executor.task id).stage = .live ∧
      (r.executor.phase = .polling id ∨ id ∈ r.executor.queue ∨
        ∃ entry ∈ r.system.owed, ∃ key : Key, entry.userData = key.asU64 ∧
          r.system.ring.completions.waker key.asUsize = some id)) ∧
    (r.system.waiting = true → r.asked ≤ r.system.taken.length) ∧
    ∀ r', r.permits op .enter = true → r.exec op .enter = .ok r' →
      (∃ id < r.executor.born, (r.executor.task id).future = .incomplete) → 1 ≤ r'.asked := by
  obtain ⟨hinv, hall⟩ := attended_of_reach h
  have hcalm : Reach (machine op T) (Calm op) r := h.mono fun _ _ hcond => hcond.1
  have howed : ∀ id, r.outstanding id = true → ∃ entry ∈ r.system.owed, ∃ key : Key,
      entry.userData = key.asU64 ∧ r.system.ring.completions.waker key.asUsize = some id := by
    intro id hout
    obtain ⟨key, hbox, hwaker⟩ := hinv.outstanding_waker hout
    obtain ⟨entry, hentry, hdata⟩ := owed_of_awaited hinv.books hbox
    exact ⟨entry, hentry, key, hdata, hwaker⟩
  refine ⟨fun id hlt hfuture => ⟨hinv.attended_live (hall id hlt hfuture), ?_⟩, ?_, ?_⟩
  · rcases hall id hlt hfuture with hphase | hqueue | hout
    · exact Or.inl hphase
    · exact Or.inr (Or.inl hqueue)
    · exact Or.inr (Or.inr (howed id hout))
  · intro hwaiting
    have hasked := hinv.asked
    rw [System.owed, hinv.books.flushed hwaiting] at hasked
    simpa using hasked
  · rintro r' hpermits hok ⟨id, hlt, hfuture⟩
    have hcommands : Calm op r .enter := fun c hc => by
      obtain rfl := Option.some.inj hc
      exact ⟨rfl, rfl, rfl, rfl⟩
    obtain ⟨-, -, -, -, -, -, -, hasked⟩ := hinv.enter hpermits hcommands hok
    simp only [permits, allows, Bool.and_eq_true, beq_iff_eq, command, Option.all_some,
      System.permits, Bool.not_eq_true'] at hpermits
    have hqueue := queue_before_wait hcalm hpermits.1 hpermits.2
    rw [hasked]
    refine (want_spec hinv.books).2 ?_
    rcases hall id hlt hfuture with hphase | hmem | hout
    · rw [hpermits.1] at hphase
      exact Tasks.Phase.noConfusion hphase
    · simp [hqueue] at hmem
    · obtain ⟨entry, hentry, -⟩ := howed id hout
      exact List.ne_nil_of_mem hentry

def idleRuntime : Runtime Nop Nat Cancellation :=
  ⟨Executor.idleExecutor, [], ⟨Ring.build {} 8, fun _ => 0, 0, [], [], false, []⟩, [], [], 0⟩

theorem reach_idleRuntime {cond : Runtime Nop Nat Cancellation → Move Nop Nat → Prop} :
    Reach (machine Nop.op Nat) cond idleRuntime :=
  .start ⟨_, _, _, _, rfl⟩

def awaitsNop : List (Move Nop Nat) :=
  [.task (.spawn true), .task .run, .task .check, .task .next, .create ⟨⟩, .poll 0 0,
    .task .endPoll, .task .next, .enter]

def completesNop : List (Move Nop Nat) :=
  [.post 0 ⟨0, 0⟩, .handle 0, .leave, .task .check, .task .next]

theorem waiting_future_woken : ∃ r : Runtime Nop Nat Cancellation,
    ((r.executor.task 0).future = .incomplete ∧ r.system.waiting = true) ∧
    r.asked ≤ r.system.taken.length ∧ ∃ entry ∈ r.system.owed, ∃ key : Key,
      entry.userData = key.asU64 ∧
      r.system.ring.completions.waker key.asUsize = some 0 := by
  obtain ⟨r, hreach, htest⟩ := Reach.of_replay _ (calm_and_spec awaits)
    reach_idleRuntime awaitsNop
    (fun r => (((r.executor.task 0).future = .incomplete ∧ r.system.waiting = true) ∧
      r.executor.born = 1 ∧ r.executor.phase = .waiting ∧ r.executor.queue = [] : Bool)) rfl
  obtain ⟨hend, hborn, hphase, hqueue⟩ := of_decide_eq_true htest
  obtain ⟨hall, hasked, -⟩ := never_stuck hreach
  refine ⟨r, hend, hasked hend.2, ?_⟩
  rcases (hall 0 (hborn ▸ Nat.one_pos) hend.1).2 with hpolling | hmem | howed
  · exact Tasks.Phase.noConfusion (hphase.symm.trans hpolling)
  · simp [hqueue] at hmem
  · exact howed

/-- Nothing is freed before its future is complete, so a run returns when every
future is; each output was sent once, and is what `block_on` returns. -/
theorem returns_complete (h : Reach (machine op T) (Awaiting op) r) :
    (∀ id < r.executor.born, (r.executor.task id).stage ≠ .live →
      (r.executor.task id).future = .complete) ∧
    ∀ r', r.permits op (.task .check) = true → r.exec op (.task .check) = .ok r' →
      r'.executor.phase = .idle →
      (∀ (i : Nat) (held : Held O), r'.held[i]? = some held → held.dropped = true) ∧
      ∀ id < r'.executor.born, (r'.executor.task id).future = .complete ∧
        ∃ output, r'.outputs.filter (·.1 = id) = [(id, output)] ∧
          ((r'.executor.task id).blocking = true → r'.executor.blockedOn id = .ok output) := by
  obtain ⟨hinv, hall⟩ := attended_of_reach h
  refine ⟨?_, ?_⟩
  · intro id hlt hstage
    cases hfuture : (r.executor.task id).future with
    | complete => rfl
    | incomplete => exact absurd (hinv.attended_live (hall id hlt hfuture)) hstage
  · intro r' hpermits hok hidle
    have hcond : Awaiting op r (.task .check) := ⟨fun c hc => by simp [command] at hc, rfl⟩
    have hreach := h.move (.task .check) hpermits hcond hok
    obtain ⟨hinv', hall'⟩ := attended_of_reach hreach
    obtain ⟨hmove, -⟩ := task_allowed hpermits
    obtain rfl := Except.ok.inj hok
    have hdone : r.executor.isDone = true := by
      by_contra hmore
      rw [Executor.step, Executor.check, if_neg hmore] at hidle
      exact Tasks.Phase.noConfusion hidle
    obtain ⟨-, -, hfreed⟩ := hinv'.counted.all_freed hdone
    refine ⟨fun i held hget => ?_, fun id hlt => ?_⟩
    · obtain ⟨hlt, hlive⟩ := hinv'.owners i held hget
      cases hdropped : held.dropped with
      | true => rfl
      | false => exact absurd (hfreed _ hlt) (hlive hdropped).2
    · have hcomplete : ((r.executor.step .check).task id).future = .complete := by
        cases hfuture : ((r.executor.step .check).task id).future with
        | complete => rfl
        | incomplete =>
            have hlive := hinv'.attended_live (hall' id hlt hfuture)
            exact Tasks.Stage.noConfusion (hlive.symm.trans (hfreed id hlt))
      have hsent := (Executor.sent_of_reach hinv'.executor).2
      have hone := (hsent.each id hlt).sends.symm.trans (hsent.each id hlt).once
      rw [show ((r.executor.step .check).face id).1 = .complete from hcomplete, if_pos rfl,
        List.countP_eq_length_filter, List.length_eq_one_iff] at hone
      obtain ⟨pair, hpair⟩ := hone
      have hmem : pair ∈ (Executor.seeOutputs r.outputs r.executor .check).filter (·.1 = id) := by
        rw [hpair]
        exact List.mem_cons_self
      obtain ⟨hout, hid⟩ := List.mem_filter.mp hmem
      obtain ⟨other, output⟩ := pair
      obtain rfl : other = id := by simpa using hid
      exact ⟨hcomplete, output, hpair, hsent.blockedOn hout⟩

theorem awaited_nop_returned : ∃ r : Runtime Nop Nat Cancellation,
    (r.outputs = [(0, 7)] ∧ r.executor.phase = .idle) ∧
    (∀ (i : Nat) (held : Held Nop), r.held[i]? = some held → held.dropped = true) ∧
    (r.executor.task 0).future = .complete ∧ r.executor.blockedOn 0 = .ok 7 := by
  obtain ⟨r, hreach, htest⟩ := Reach.of_replay _ (calm_and_spec awaits)
    reach_idleRuntime
    (awaitsNop ++ completesNop ++ [.poll 0 0, .drop 0, .task (.finish 7), .task .endPoll,
      .task (.free 0), .task .next, .enter, .leave])
    (fun r => (r.permits Nop.op (.task .check) = true ∧
      (r.executor.step .check).phase = .idle ∧ (r.executor.step .check).born = 1 ∧
      ((r.executor.step .check).task 0).blocking = true ∧ r.outputs = [(0, 7)] : Bool)) rfl
  obtain ⟨hpermits, hidle, hborn, hblocking, houtputs⟩ := of_decide_eq_true htest
  obtain ⟨r', hok, hexecutor, hsame⟩ : ∃ r', r.exec Nop.op (.task .check) = .ok r' ∧
      r'.executor = r.executor.step .check ∧ r'.outputs = r.outputs := ⟨_, rfl, rfl, rfl⟩
  rw [← hexecutor] at hidle hborn hblocking
  rw [← hsame] at houtputs
  obtain ⟨hdropped, hcomplete⟩ := (returns_complete hreach).2 r' hpermits hok hidle
  obtain ⟨hfuture, output, hsent, hblocked⟩ := hcomplete 0 (hborn ▸ Nat.one_pos)
  obtain rfl : 7 = output := by simpa [houtputs] using hsent
  exact ⟨r', ⟨houtputs, hidle⟩, hdropped, hfuture, hblocked hblocking⟩

end Inel.Runtime
