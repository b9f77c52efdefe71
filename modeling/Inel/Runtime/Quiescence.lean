import Inel.Reactor.Settled
import Inel.Runtime.Progress

/-!
# The end of the last wait

As long as no submission is dropped before its last result came, a wait that is
entered without submissions asks for every detached entry there is. So the wait after
which no task is left leaves nothing outstanding.
-/

namespace Inel.Runtime

open Transitions
open Reactor hiding Move Phase Stage
open Tasks (TaskId Executor)

variable {O E Out T C : Type}

/-- A submission is dropped once its last result came, or before it is polled. -/
def drops (r : Runtime O T C) : Move O T → Bool
  | .drop i => (r.held[i]?).all fun held => held.key.all fun key =>
      !(r.system.ring.completions.mailbox key.asUsize).any Mailbox.expects
  | _ => true

/-- The runs in which nothing is cancelled. -/
def Patient (op : MultiOp O E Out C) (r : Runtime O T C) (move : Move O T) : Prop :=
  r.Calm op move ∧ r.drops move = true

/-- Nothing was cancelled, and a wait that has no mailbox to serve asks for all there
is. -/
structure Uncancelled (r : Runtime O T C) : Prop where
  collecting : ∀ slot cancel, r.system.ring.completions.mailbox slot ≠ some (.cancelled cancel)
  asks : r.system.waiting = true → (∀ slot, r.system.ring.completions.mailbox slot = none) →
    r.asked = r.system.owed.length

variable {op : MultiOp O E Out C} {r r' : Runtime O T C}

theorem cancelOwners_of_none {s : System TaskId C} (h : s.Inv)
    (hnone : ∀ slot cancel, s.ring.completions.mailbox slot ≠ some (.cancelled cancel)) :
    s.ring.canceled.toNat = 0 := by
  rw [h.cancelling.count, List.length_eq_zero_iff, List.eq_nil_iff_forall_not_mem]
  intro id hid
  obtain ⟨entry, hentry, target, hrequest⟩ := Cancelling.mem_cancelOwners hid
  obtain ⟨-, cancel, hbox⟩ := h.cancelling.target entry hentry id target hrequest
  exact hnone _ cancel hbox

/-- Without submissions and cancellations a wait asks for every entry. -/
theorem want_of_vacant {s : System TaskId C} (h : s.Inv)
    (hvacant : ∀ slot, s.ring.completions.mailbox slot = none) :
    (if s.ring.idle then 0 else s.ring.want.toNat) = s.owed.length := by
  have hcanceled := cancelOwners_of_none h (fun slot cancel => by simp [hvacant slot])
  have hactive : s.ring.active.toNat = 0 := by
    rw [h.tally.active, List.length_eq_zero_iff, List.eq_nil_iff_forall_not_mem]
    intro id hid
    obtain ⟨entry, hentry, howner⟩ := mem_owners.mp hid
    obtain ⟨key, -, -, hexpects⟩ := h.keyed.submission entry hentry id howner
    simp [hvacant] at hexpects
  have hsum := counters_eq_owed h
  by_cases hidle : s.ring.idle = true
  · have hzero := h.counted.idle.mp hidle
    rw [if_pos hidle]
    omega
  · have hpos : s.ring.active.toNat + s.ring.detached.toNat ≠ 0 :=
      fun hzero => hidle (h.counted.idle.mpr hzero)
    have hwant : s.ring.want = s.ring.detached := by
      have hactive' : s.ring.active = 0 := UInt32.toNat_inj.mp hactive
      have hcanceled' : s.ring.canceled = 0 := UInt32.toNat_inj.mp hcanceled
      have hdetached : s.ring.detached > 0 := by
        rw [gt_iff_lt, UInt32.lt_iff_toNat_lt]
        simp
        omega
      simp [Ring.want, hactive', hcanceled', hdetached]
    rw [if_neg hidle, hwant]
    omega

/-! ## Steps -/

theorem PollSpec.collecting {streams : Bool} {held held' : Held O} (h : r.Uncancelled)
    (hspec : PollSpec r r' streams held held') (slot : Nat) (cancel : C) :
    r'.system.ring.completions.mailbox slot ≠ some (.cancelled cancel) := by
  cases hspec with
  | submits key hstate hins hkey hid huses hoccupant hborn =>
      by_cases heq : slot = key.asUsize
      · simp [heq, hins.here]
      · rw [hins.others slot heq]
        exact h.collecting slot cancel
  | checks key pending more uses hkey hbox hannounced htouches =>
      by_cases heq : slot = key.asUsize
      · rw [heq, htouches.here]
        unfold Mailbox.remaining
        split <;> simp
      · rw [htouches.others slot heq]
        exact h.collecting slot cancel
  | ends hkey hsystem hsame =>
      rw [hsystem]
      exact h.collecting slot cancel

theorem DropSpec.collecting {i : Nat} {held : Held O} (h : r.Uncancelled)
    (hget : r.held[i]? = some held) (hdrops : r.drops (.drop i) = true)
    (hspec : DropSpec op r r' held) (slot : Nat) (cancel : C) :
    r'.system.ring.completions.mailbox slot ≠ some (.cancelled cancel) := by
  cases hspec with
  | cancels key pending more hkey hbox htouches hoccupant =>
      obtain rfl : more = false := by
        simpa [drops, hget, hkey, hbox, Mailbox.expects] using hdrops
      by_cases heq : slot = key.asUsize
      · simp [heq, htouches.here, Mailbox.afterCancel]
      · rw [htouches.others slot heq]
        exact h.collecting slot cancel
  | leaves hkey hsystem =>
      rw [hsystem]
      exact h.collecting slot cancel

theorem Uncancelled.outside (hinv : Inv op r') (hphase : r'.executor.phase ≠ .waiting)
    (hnone : ∀ slot cancel, r'.system.ring.completions.mailbox slot ≠ some (.cancelled cancel)) :
    r'.Uncancelled :=
  ⟨hnone, fun hwaiting => absurd (hinv.waits hwaiting) hphase⟩

theorem Uncancelled.handle {i : Nat} (h : r.Uncancelled) (hinv : Inv op r)
    (hpermits : r.permits op (.handle i) = true) (hcalm : r.Calm op (.handle i))
    (hok : r.exec op (.handle i) = .ok r') : r'.Uncancelled := by
  obtain ⟨⟨entry, result, rest, hget, hhandled⟩, -, -, hsame, -⟩ :=
    hinv.handle hpermits hcalm hok
  obtain ⟨system, hexec, hret⟩ := bind_eq_ok hok
  obtain rfl := Except.ok.inj hret
  simp only [permits, command, Option.all_some, Bool.and_eq_true, System.permits] at hpermits
  have hwaiting := hpermits.2.1
  cases hhandled with
  | ignored howner heffects hset =>
      refine ⟨fun slot cancel => by rw [hset]; exact h.collecting slot cancel, fun _ hvacant => ?_⟩
      have hasked := h.asks hwaiting fun slot => by rw [← hset]; exact hvacant slot
      have hlast : result.hasMore = false := by
        cases hmore : result.hasMore with
        | false => rfl
        | true =>
            obtain ⟨id, hid, -⟩ := hinv.books.moreLive _ (List.mem_of_getElem? hget) result
              List.mem_cons_self hmore
            rw [howner] at hid
            exact absurd hid (by simp)
      have hlength : system.owed.length + 1 = r.system.owed.length := by
        simp only [System.exec, hget] at hexec
        obtain ⟨ran, hran, hback⟩ := bind_eq_ok hexec
        obtain rfl := Except.ok.inj hback
        have hdata := hinv.books.keyed.ignored entry
          (List.mem_append_right _ (List.mem_map_of_mem (List.mem_of_getElem? hget))) howner
        simp only [Ring.handleCompletion, hdata, beq_self_eq_true, if_true] at hran
        obtain rfl := Except.ok.inj hran
        have hlt := (List.getElem?_eq_some_iff.mp hget).1
        simp only [System.owed, hlast, Bool.false_eq_true, if_false, List.length_append,
          List.length_map, List.length_eraseIdx_of_lt hlt]
        omega
      show r.asked - 1 = system.owed.length
      omega
  | live key pending waker howner hseat hbox hwaker heffects hset =>
      refine ⟨fun slot cancel => ?_, fun _ hvacant => ?_⟩
      · by_cases heq : slot = key.asUsize
        · simp [heq, hset.here]
        · rw [hset.others slot heq]
          exact h.collecting slot cancel
      · have hnone := hvacant key.asUsize
        simp [hset.here] at hnone
  | cancelled key cancel howner hseat hbox heffects hset =>
      exact absurd hbox (h.collecting _ cancel)

theorem Uncancelled.step {move : Move O T} (h : r.Uncancelled) (hinv : Inv op r)
    (hpermits : r.permits op move = true) (hcond : Patient op r move)
    (hok : r.exec op move = .ok r') : r'.Uncancelled := by
  obtain ⟨hcalm, hdrops⟩ := hcond
  have hinv' := hinv.step hpermits hcalm hok
  cases move with
  | task move =>
      obtain ⟨hmove, hphase, -, -, -⟩ := task_allowed hpermits
      obtain rfl := Except.ok.inj hok
      exact ⟨h.collecting, fun hwaiting => absurd (hinv.waits hwaiting) hphase⟩
  | create value =>
      obtain ⟨system, hexec⟩ : ∃ held, r' = { r with held := held } := by
        simp only [exec] at hok
        split at hok <;> exact ⟨_, (Except.ok.inj hok).symm⟩
      rw [hexec]
      exact ⟨h.collecting, h.asks⟩
  | poll i slot =>
      obtain ⟨⟨held, held', hget, hphase, -, hspec, -⟩, -, hquiet⟩ :=
        hinv.poll hpermits hcalm hok
      refine .outside hinv' ?_ (hspec.collecting h)
      rw [hquiet.phase, hphase]
      exact Tasks.Phase.noConfusion
  | pollNext i slot =>
      obtain ⟨⟨held, held', hget, hphase, -, hspec, -⟩, -, hquiet⟩ :=
        hinv.pollNext hpermits hcalm hok
      refine .outside hinv' ?_ (hspec.collecting h)
      rw [hquiet.phase, hphase]
      exact Tasks.Phase.noConfusion
  | drop i =>
      obtain ⟨⟨held, held', hget, hacts, -, hspec, -⟩, -, hquiet⟩ :=
        hinv.drop hpermits hcalm hok
      refine .outside hinv' ?_ (hspec.collecting h hget hdrops)
      rw [hquiet.phase]
      rcases hacts with hphase | ⟨hphase, -⟩
      · rw [hphase]
        exact Tasks.Phase.noConfusion
      · exact hphase
  | submitDetached =>
      obtain ⟨-, hexecutor, -, hset, -⟩ := hinv.submitDetached hpermits hcalm hok
      simp only [permits, allows, Bool.and_eq_true, bne_iff_ne] at hpermits
      refine .outside hinv' (hexecutor ▸ hpermits.1.2) ?_
      rw [hset]
      exact h.collecting
  | enter =>
      obtain ⟨-, -, -, hset, -, -, hlength, hasked⟩ := hinv.enter hpermits hcalm hok
      refine ⟨by rw [hset]; exact h.collecting, fun _ hvacant => ?_⟩
      rw [hasked, hlength]
      exact want_of_vacant hinv.books (by rwa [hset] at hvacant)
  | post i result =>
      obtain ⟨-, -, -, hring, -, hasked⟩ := hinv.post hpermits hcalm hok
      obtain ⟨system, hexec, hret⟩ := bind_eq_ok hok
      obtain rfl := Except.ok.inj hret
      have hsame : system.waiting = r.system.waiting ∧
          system.owed.length = r.system.owed.length := by
        simp only [System.exec] at hexec
        split at hexec <;> rw [← Except.ok.inj hexec] <;> simp [System.owed]
      refine ⟨by rw [hring]; exact h.collecting, fun hwaiting hvacant => ?_⟩
      rw [hring] at hvacant
      show r.asked = system.owed.length
      rw [hsame.2]
      exact h.asks (hsame.1 ▸ hwaiting) hvacant
  | handle i => exact h.handle hinv hpermits hcalm hok
  | leave =>
      obtain ⟨-, hexecutor, -, hsystem, -⟩ := hinv.leave hpermits hcalm hok
      refine .outside hinv' ?_ (by rw [hsystem]; exact h.collecting)
      rw [hexecutor]
      exact Tasks.Phase.noConfusion

theorem uncancelled_of_reach (h : Reach (machine op T) (Patient op) r) :
    Inv op r ∧ r.Uncancelled := by
  refine h.invariant (I := fun r => Inv op r ∧ r.Uncancelled) ?_ ?_
  · intro r hinit
    refine ⟨start_inv hinit, ?_⟩
    obtain ⟨task, options, entries, occupant, rfl⟩ := hinit
    exact ⟨by simp [Ring.build], fun hwaiting => Bool.noConfusion hwaiting⟩
  · rintro r move r' ⟨hinv, hold⟩ hpermits hcond hok
    exact ⟨hinv.step hpermits hcond.1 hok, hold.step hinv hpermits hcond hok⟩

/-- The wait after which no task is left leaves nothing outstanding, neither in the
kernel nor in the queue, and no result unread: the ring is done if its slots were
given back. -/
theorem last_wait_settles (h : Reach (machine op T) (Patient op) r)
    (hpermits : r.permits op .leave = true) (hok : r.exec op .leave = .ok r')
    (hdone : r'.executor.isDone = true) : r'.system.owed = [] ∧
      (∀ slot, r'.system.ring.completions.mailbox slot = none) ∧
      (r'.system.ring.isDone = true ↔
        ∀ reserve, (r'.system.ring.register reserve).isFull = true) := by
  obtain ⟨hinv, hold⟩ := uncancelled_of_reach h
  have hcalm : r.Calm op .leave := fun c hc => by
    obtain rfl := Option.some.inj hc
    exact ⟨rfl, rfl, rfl, rfl⟩
  obtain ⟨hinv', -, hheld, hsystem, hasked, -⟩ := hinv.leave hpermits hcalm hok
  obtain ⟨-, -, hfreed⟩ := hinv'.counted.all_freed hdone
  have hvacant : ∀ slot, r'.system.ring.completions.mailbox slot = none := by
    intro slot
    cases hbox : r'.system.ring.completions.mailbox slot with
    | none => rfl
    | some box =>
        cases box with
        | cancelled cancel =>
            rw [hsystem] at hbox
            exact absurd hbox (hold.collecting slot cancel)
        | live pending more =>
            obtain ⟨i, g, key, hg, hkey, -⟩ := hinv'.holds.covered slot pending more hbox
            obtain ⟨hlt, hlive⟩ := hinv'.owners i g hg
            exact absurd (hfreed _ hlt) (hlive (Held.key_eq_some hkey).2).2
  have hwaiting : r.system.waiting = true := by
    simp only [permits, command, Option.all_some, Bool.and_eq_true, System.permits] at hpermits
    exact hpermits.2
  have howed : r'.system.owed = [] := by
    rw [hsystem] at hvacant ⊢
    have hlength := hold.asks hwaiting hvacant
    rw [hasked] at hlength
    exact List.eq_nil_of_length_eq_zero hlength.symm
  refine ⟨howed, hvacant, ?_⟩
  have hwaits : r'.system.ring.completions.waiting = 0 := by
    refine CompletionSet.waiting_eq_zero_iff.mpr fun slot => ?_
    simp [CompletionSet.waitingAt, hvacant slot]
  rw [hinv'.books.isDone_iff]
  simp [howed, hwaits]

/-- A detached entry is collected in the last wait. -/
theorem detached_entry_collected : ∃ r r' : Runtime Nop Nat Cancellation,
    r.executor.isDone = true ∧ r.exec Nop.op .leave = .ok r' ∧
    r'.system.owed = [] := by
  obtain ⟨r, hreach, htest⟩ := Reach.of_replay _ (calm_and_spec drops)
    reach_idleRuntime
    [.task (.spawn true), .task .run, .task .check, .task .next, .submitDetached,
      .task (.finish 7), .task .endPoll, .task (.free 0), .task .next, .enter, .post 0 ⟨0, 0⟩,
      .handle 0]
    (fun r => (r.permits Nop.op .leave = true ∧ r.executor.isDone = true : Bool)) rfl
  obtain ⟨hpermits, hdone⟩ := of_decide_eq_true htest
  exact ⟨r, _, hdone, rfl, (last_wait_settles hreach hpermits rfl hdone).1⟩

end Inel.Runtime
