import Inel.Base.Weights
import Inel.Reactor.Counters

/-!
# When a ring is done

Results that arrived for submissions are counted beside the ring, and so are those
taken, those consumed by cancellations and the slots handed out. What the ring says
of being done is compared with the counts.
-/

namespace Inel.Reactor

open SlotTable NumberPool Transitions

variable {E W C : Type}

/-! ## Results that wait -/

def Mailbox.waiting : Mailbox C → Nat
  | .live pending _ => pending.length
  | .cancelled _ => 0

namespace CompletionSet

variable {set set' : CompletionSet W C}

def waitingAt (set : CompletionSet W C) (slot : Nat) : Nat :=
  ((set.mailbox slot).map Mailbox.waiting).getD 0

def waiting (set : CompletionSet W C) : Nat :=
  ∑ slot ∈ Finset.range set.slab.slots.length, set.waitingAt slot

theorem waitingAt_of_length_le {slot : Nat} (h : set.slab.slots.length ≤ slot) :
    set.waitingAt slot = 0 := by
  have hget : set.slab.get slot = none := by simp [Slab.get, List.getElem?_eq_none h]
  simp [waitingAt, mailbox, hget]

theorem waiting_change {slot : Nat}
    (hothers : ∀ other, other ≠ slot → set'.mailbox other = set.mailbox other) :
    set'.waiting + set.waitingAt slot = set.waiting + set'.waitingAt slot := by
  apply Weights.sum_range_change
  · exact fun _ => waitingAt_of_length_le
  · exact fun _ => waitingAt_of_length_le
  · intro other hother
    rw [waitingAt, waitingAt, hothers other hother]

/-- A mailbox without a result to come has one to read. -/
theorem Wf.pending_of_last {slot : Nat} {pending : List RingResult} (h : set.Wf)
    (hbox : set.mailbox slot = some (.live pending false)) : pending ≠ [] := by
  rcases mailbox_live_cases hbox with ⟨_, _, _, hmore⟩ | ⟨result, _, rfl, _⟩ |
    ⟨waker, handle, hget, rfl⟩
  · simp at hmore
  · simp
  · exact h.pending slot waker handle hget

theorem waiting_eq_zero_iff :
    set.waiting = 0 ↔ ∀ slot, set.waitingAt slot = 0 := by
  rw [waiting, Finset.sum_eq_zero_iff]
  constructor
  · intro h slot
    rcases Nat.lt_or_ge slot set.slab.slots.length with hlt | hge
    · exact h slot (Finset.mem_range.mpr hlt)
    · exact waitingAt_of_length_le hge
  · exact fun h slot _ => h slot

end CompletionSet

/-- Whether a callback hands a result to a cancellation. -/
def Effect.consumes : Effect W C → Bool
  | .consume _ _ => true
  | _ => false

/-! ## Registers of the ring -/

/-- What the slots of a ring are for. -/
inductive Reserve
  | fixedBuffer
  | directFile
  | bufferGroup
deriving DecidableEq, Repr

namespace Ring

variable {ring ring' : Ring E W C} {reserve : Reserve} {slot : UInt32}

def register (ring : Ring E W C) : Reserve → SlotRegister
  | .fixedBuffer => ring.fixedBuffers
  | .directFile => ring.directFiles
  | .bufferGroup => ring.bufferGroups

/-- A request for a slot that the kernel accepts. -/
def getSlot (ring : Ring E W C) : Reserve → Except RegisterError UInt32 × Ring E W C
  | .fixedBuffer => ring.registerBuffer true
  | .directFile => ring.getDirectSlot
  | .bufferGroup => ring.getBufferGroup

def releaseSlot (ring : Ring E W C) : Reserve → UInt32 → Ring E W C
  | .fixedBuffer => ring.unregisterBuffer
  | .directFile => ring.releaseDirectSlot
  | .bufferGroup => ring.releaseBufferGroup

def withRegister (ring : Ring E W C) : Reserve → SlotRegister → Ring E W C
  | .fixedBuffer, register => { ring with fixedBuffers := register }
  | .directFile, register => { ring with directFiles := register }
  | .bufferGroup, register => { ring with bufferGroups := register }

@[simp] theorem register_withRegister (ring : Ring E W C) (reserve : Reserve)
    (register : SlotRegister) :
    (ring.withRegister reserve register).register =
      Function.update ring.register reserve register := by
  funext other
  cases reserve <;> cases other <;> rfl

/-- Nothing but the registers differs. -/
structure SameEntries (ring ring' : Ring E W C) : Prop where
  queue : ring'.queue = ring.queue
  active : ring'.active = ring.active
  detached : ring'.detached = ring.detached
  canceled : ring'.canceled = ring.canceled
  completions : ring'.completions = ring.completions

theorem sameEntries_withRegister (ring : Ring E W C) (reserve : Reserve)
    (register : SlotRegister) : SameEntries ring (ring.withRegister reserve register) := by
  cases reserve <;> exact ⟨rfl, rfl, rfl, rfl, rfl⟩

theorem getSlot_of_some {register : SlotRegister}
    (h : (ring.register reserve).get = some (slot, register)) :
    ring.getSlot reserve = (.ok slot, ring.withRegister reserve register) := by
  cases reserve with
  | fixedBuffer =>
      change ring.fixedBuffers.get = _ at h
      simp [getSlot, registerBuffer, h, withRegister]
  | directFile =>
      change ring.directFiles.get = _ at h
      simp [getSlot, getDirectSlot, h, withRegister]
  | bufferGroup =>
      change ring.bufferGroups.get = _ at h
      simp [getSlot, getBufferGroup, h, withRegister]

theorem getSlot_of_none (h : (ring.register reserve).get = none) :
    ∃ err, ring.getSlot reserve = (.error err, ring) := by
  cases reserve with
  | fixedBuffer =>
      change ring.fixedBuffers.get = none at h
      simp [getSlot, registerBuffer, h]
  | directFile =>
      change ring.directFiles.get = none at h
      simp [getSlot, getDirectSlot, h]
  | bufferGroup =>
      change ring.bufferGroups.get = none at h
      simp [getSlot, getBufferGroup, h]

theorem releaseSlot_eq (ring : Ring E W C) (reserve : Reserve) (slot : UInt32) :
    ring.releaseSlot reserve slot =
      ring.withRegister reserve ((ring.register reserve).remove slot) := by
  cases reserve <;> rfl

@[simp] theorem register_cancelled (request : Option E) (accepted : Bool)
    (completions : CompletionSet W C) :
    (ring.cancelled request accepted completions).register = ring.register := by
  funext reserve
  cases accepted <;> cases request <;> cases reserve <;> rfl

theorem isDone_iff :
    ring.isDone = true ↔ ring.active + ring.detached = 0 ∧ ring.completions.isEmpty = true ∧
      ∀ reserve, (ring.register reserve).isFull = true := by
  simp only [isDone, Bool.and_eq_true, beq_iff_eq]
  constructor
  · rintro ⟨⟨⟨⟨hcount, hempty⟩, hfiles⟩, hbuffers⟩, hgroups⟩
    refine ⟨hcount, hempty, fun reserve => ?_⟩
    cases reserve with
    | fixedBuffer => exact hbuffers
    | directFile => exact hfiles
    | bufferGroup => exact hgroups
  · rintro ⟨hcount, hempty, hfull⟩
    exact ⟨⟨⟨⟨hcount, hempty⟩, hfull .directFile⟩, hfull .fixedBuffer⟩, hfull .bufferGroup⟩

end Ring

theorem SlotRegister.Holds.isFull_iff {ι : Type} {register : SlotRegister}
    {held : ι → Option Nat} (h : register.Holds held) :
    register.isFull = true ↔ ∀ i, held i = none := by
  rw [← h.balanced.stock_length_eq_iff, isFull, beq_iff_eq, List.length_map]
  exact eq_comm

/-! ## Results that a command moves -/

namespace System

variable {s s' : System W C}

/-- The results of submissions that a command reads from the kernel. -/
def arrives (s : System W C) : Command W C → Nat
  | .handle i =>
      match s.taken[i]? with
      | some ⟨entry, _ :: _⟩ => if entry.request.owner.isSome then 1 else 0
      | _ => 0
  | _ => 0

/-- The results that a command returns to its caller. -/
def takes (s : System W C) : Command W C → Nat
  | .checkResult key =>
      match s.ring.checkResult key with
      | .ok ran => if ran.value.isSome then 1 else 0
      | .error _ => 0
  | _ => 0

/-- The results that a command hands to cancellations. -/
def consumes (s : System W C) : Command W C → Nat
  | .cancel key entry cancel =>
      let id := s.occupant key.asUsize
      match s.ring.cancel key (if entry then some (.asyncCancel id key) else none) cancel with
      | .ok ran => ran.effects.countP Effect.consumes
      | .error _ => 0
  | .handle i =>
      match s.taken[i]? with
      | some ⟨entry, result :: _⟩ =>
          match s.ring.handleCompletion ⟨entry.userData, result⟩ with
          | .ok ran => ran.effects.countP Effect.consumes
          | .error _ => 0
      | _ => 0
  | _ => 0

theorem waiting_submit {slot : Nat} {waker : W} (h : s.Inv)
    (hadmits : s.ring.completions.slab.admits slot = true)
    (hlen : s.ring.completions.slab.len < 2 ^ 32)
    (hok : s.exec (.submit slot waker) = .ok s') :
    s'.ring.completions.waiting = s.ring.completions.waiting := by
  have hslot : slot < 2 ^ 32 := Slab.lt_of_admits hadmits h.wf.slots_le hlen
  obtain ⟨-, -, hhere, -, hothers⟩ := CompletionSet.insert_spec h.wf hadmits hslot waker
  have hvacant : s.ring.completions.mailbox slot = none :=
    h.wf.mailbox_eq_none_iff.mpr (Slab.get_of_admits hadmits)
  obtain ⟨⟨key, ring⟩, hsubmit, hret⟩ := bind_eq_ok hok
  obtain rfl := Except.ok.inj hret
  obtain ⟨-, hring⟩ := Ring.submit_eq_ok hsubmit
  have hchange := CompletionSet.waiting_change fun other hne => (hothers other hne).1
  simp only [CompletionSet.waitingAt, hhere, hvacant, Option.map_some, Option.map_none,
    Option.getD_some, Option.getD_none, Mailbox.waiting, List.length_nil] at hchange
  rw [hring]
  exact hchange

theorem waiting_cancel {key : Key} {entry : Bool} {cancel : C} (h : s.Inv)
    (hok : s.exec (.cancel key entry cancel) = .ok s') :
    s'.ring.completions.waiting + s.consumes (.cancel key entry cancel) =
      s.ring.completions.waiting := by
  obtain ⟨ran, hran, hret⟩ := bind_eq_ok hok
  obtain rfl := Except.ok.inj hret
  obtain ⟨accepted, completions, hcancel, hring⟩ := Ring.cancel_eq_ok hran
  have hset : ran.state.completions = completions := by
    rw [hring, Ring.cancelled_completions]
  have hconsumes : s.consumes (.cancel key entry cancel) =
      ran.effects.countP Effect.consumes := by
    simp only [consumes, hran]
  rw [hconsumes]
  change ran.state.completions.waiting + _ = _
  rw [hset]
  cases hbox : s.ring.completions.mailbox key.asUsize with
  | none => simp [CompletionSet.cancel_vacant h.wf hbox] at hcancel
  | some box =>
      cases box with
      | cancelled other => simp [CompletionSet.cancel_cancelled hbox] at hcancel
      | live pending more =>
          obtain ⟨set, hset, hupd⟩ := CompletionSet.cancel_live h.wf hbox cancel
          rw [hset] at hcancel
          obtain ⟨-, rfl, heffects⟩ := Ran.mk.inj (Except.ok.inj hcancel)
          have hcount : ran.effects.countP Effect.consumes = pending.length := by
            rw [← heffects]
            cases more <;>
              simp [List.countP_append, List.countP_map, Function.comp_def, Effect.consumes]
          have hnone : set.waitingAt key.asUsize = 0 := by
            rw [CompletionSet.waitingAt, hupd.here]
            cases more <;> simp [Mailbox.afterCancel, Mailbox.waiting]
          have hchange := CompletionSet.waiting_change hupd.others
          rw [hnone, CompletionSet.waitingAt, hbox] at hchange
          simpa [hcount, Mailbox.waiting] using hchange

theorem waiting_checkResult {key : Key} (h : s.Inv) (hok : s.exec (.checkResult key) = .ok s') :
    s'.ring.completions.waiting + s.takes (.checkResult key) = s.ring.completions.waiting := by
  obtain ⟨ran, hran, hret⟩ := bind_eq_ok hok
  obtain rfl := Except.ok.inj hret
  obtain ⟨completions, hresult, hring⟩ := Ring.checkResult_eq_ok hran
  have htakes : s.takes (.checkResult key) = if ran.value.isSome then 1 else 0 := by
    simp only [takes, hran]
  rw [htakes]
  change ran.state.completions.waiting + _ = _
  rw [hring]
  change completions.waiting + _ = _
  cases hbox : s.ring.completions.mailbox key.asUsize with
  | none => simp [CompletionSet.result_vacant h.wf hbox] at hresult
  | some box =>
      cases box with
      | live pending more =>
          obtain ⟨set, hset, hupd⟩ := CompletionSet.result_live h.wf hbox
          rw [hset] at hresult
          obtain ⟨hvalue, rfl, -⟩ := Ran.mk.inj (Except.ok.inj hresult)
          have hrest : set.waitingAt key.asUsize = pending.tail.length := by
            rw [CompletionSet.waitingAt, hupd.here, Mailbox.remaining]
            cases hdone : pending.tail.isEmpty <;> cases more <;>
              simp_all [Mailbox.waiting]
          have hchange := CompletionSet.waiting_change hupd.others
          rw [hrest, CompletionSet.waitingAt, hbox] at hchange
          rw [← hvalue]
          cases pending with
          | nil => simpa [Mailbox.waiting] using hchange
          | cons result rest =>
              simp only [Option.map_some, Option.getD_some, Mailbox.waiting, List.length_cons,
                List.tail_cons] at hchange
              simp only [List.head?_cons, Option.isSome_some, if_true]
              omega
      | cancelled cancel =>
          obtain ⟨set, hset, hupd⟩ := CompletionSet.result_cancelled h.wf hbox
          rw [hset] at hresult
          obtain ⟨hvalue, rfl, -⟩ := Ran.mk.inj (Except.ok.inj hresult)
          have hchange := CompletionSet.waiting_change hupd.others
          rw [CompletionSet.waitingAt, CompletionSet.waitingAt, hupd.here, hbox] at hchange
          simpa [← hvalue] using hchange

theorem waiting_handleCompletion {t : Taken} {result : RingResult} (h : s.Inv)
    (ht : t ∈ s.taken) {ran : Ran Unit (Ring Request W C) W C}
    (hok : s.ring.handleCompletion ⟨t.entry.userData, result⟩ = .ok ran) :
    ran.state.completions.waiting + ran.effects.countP Effect.consumes =
      s.ring.completions.waiting + if t.entry.request.owner.isSome then 1 else 0 := by
  have hmem : t.entry ∈ s.owed := List.mem_append_right _ (List.mem_map_of_mem ht)
  cases howner : t.entry.request.owner with
  | none =>
      have hdata := h.keyed.ignored t.entry hmem howner
      simp only [Ring.handleCompletion, hdata, beq_self_eq_true, if_true] at hok
      obtain rfl := Except.ok.inj hok
      rfl
  | some id =>
      obtain ⟨key, hdata, rfl, hexp⟩ := h.keyed.submission t.entry hmem id howner
      have hignore : (key.asU64 == ignoreKey) = false := by simpa using key.asU64_ne_ignoreKey
      simp only [Ring.handleCompletion, hdata, hignore, Bool.false_eq_true, if_false,
        Key.fromU64_asU64] at hok
      obtain ⟨notified, hnotify, hret⟩ := bind_eq_ok hok
      obtain rfl := Except.ok.inj hret
      simp only [Option.isSome_some, if_true]
      cases hbox : s.ring.completions.mailbox key.asUsize with
      | none => simp [hbox] at hexp
      | some box =>
          cases box with
          | live pending more =>
              obtain rfl : more = true := by simpa [hbox, Mailbox.expects] using hexp
              obtain ⟨waker, completions, -, hnotify', hupd⟩ :=
                CompletionSet.notify_live h.wf hbox result
              obtain rfl := Except.ok.inj (hnotify'.symm.trans hnotify)
              have hchange := CompletionSet.waiting_change hupd.others
              simp only [CompletionSet.waitingAt, hupd.here, hbox, Option.map_some,
                Option.getD_some, Mailbox.waiting, List.length_append, List.length_singleton]
                at hchange
              simp only [Effect.consumes, List.countP_cons, List.countP_nil, Bool.false_eq_true,
                if_false]
              omega
          | cancelled cancel =>
              obtain ⟨completions, hnotify', hupd⟩ :=
                CompletionSet.notify_cancelled h.wf hbox result
              obtain rfl := Except.ok.inj (hnotify'.symm.trans hnotify)
              have hchange := CompletionSet.waiting_change hupd.others
              simp only [CompletionSet.waitingAt, hupd.here, hbox, Option.map_some,
                Option.map_none, Option.getD_some, Option.getD_none, Mailbox.waiting] at hchange
              simp only [Effect.consumes, List.countP_cons, List.countP_nil, Bool.false_eq_true,
                if_false, if_true]
              omega

theorem waiting_handle {i : Nat} (h : s.Inv) (hok : s.exec (.handle i) = .ok s') :
    s'.ring.completions.waiting + s.consumes (.handle i) =
      s.ring.completions.waiting + s.arrives (.handle i) := by
  simp only [exec] at hok
  simp only [consumes, arrives]
  cases hget : s.taken[i]? with
  | none =>
      rw [hget] at hok
      obtain rfl := Except.ok.inj hok
      rfl
  | some taken =>
      obtain ⟨entry, posted⟩ := taken
      rw [hget] at hok
      cases posted with
      | nil =>
          obtain rfl := Except.ok.inj hok
          rfl
      | cons result rest =>
          obtain ⟨ran, hran, hret⟩ := bind_eq_ok hok
          obtain rfl := Except.ok.inj hret
          simp only [hran]
          exact waiting_handleCompletion h (List.mem_of_getElem? hget) hran

/-- What arrives waits until it is taken or consumed. -/
theorem Inv.waiting_step {command : Command W C} (h : s.Inv)
    (hpermits : s.permits command = true) (hkeys : s.keysFit command = true)
    (hok : s.exec command = .ok s') :
    s'.ring.completions.waiting + (s.takes command + s.consumes command) =
      s.ring.completions.waiting + s.arrives command := by
  cases command with
  | submit slot waker =>
      simp only [permits, Bool.and_eq_true] at hpermits
      exact waiting_submit h hpermits.2 (by simpa [keysFit] using hkeys) hok
  | submitDetached =>
      obtain ⟨ring, hring, hret⟩ := bind_eq_ok hok
      obtain rfl := Except.ok.inj hret
      rw [Ring.submitDetached_eq_ok hring]
      rfl
  | cancel key entry cancel =>
      have hstep := waiting_cancel h hok
      show _ + (0 + _) = _ + 0
      omega
  | checkResult key =>
      have hstep := waiting_checkResult h hok
      show _ + (_ + 0) = _ + 0
      omega
  | enter =>
      cases hidle : s.ring.idle with
      | true =>
          obtain rfl := Except.ok.inj ((exec_enter_idle s hidle).symm.trans hok)
          rfl
      | false =>
          obtain rfl := Except.ok.inj ((exec_enter s hidle).symm.trans hok)
          rfl
  | post i result =>
      simp only [exec] at hok
      split at hok <;> obtain rfl := Except.ok.inj hok <;> rfl
  | handle i =>
      have hstep := waiting_handle h hok
      show _ + (0 + _) = _
      omega
  | leave =>
      obtain rfl := Except.ok.inj hok
      rfl

/-- No command touches the registers. -/
theorem register_exec {command : Command W C} (hok : s.exec command = .ok s') :
    s'.ring.register = s.ring.register := by
  funext reserve
  cases command with
  | submit slot waker =>
      obtain ⟨⟨key, ring⟩, hsubmit, hret⟩ := bind_eq_ok hok
      obtain rfl := Except.ok.inj hret
      rw [(Ring.submit_eq_ok hsubmit).2]
      cases reserve <;> rfl
  | submitDetached =>
      obtain ⟨ring, hring, hret⟩ := bind_eq_ok hok
      obtain rfl := Except.ok.inj hret
      rw [Ring.submitDetached_eq_ok hring]
      cases reserve <;> rfl
  | cancel key entry cancel =>
      obtain ⟨ran, hran, hret⟩ := bind_eq_ok hok
      obtain rfl := Except.ok.inj hret
      obtain ⟨accepted, completions, -, hring⟩ := Ring.cancel_eq_ok hran
      simp [hring]
  | checkResult key =>
      obtain ⟨ran, hran, hret⟩ := bind_eq_ok hok
      obtain rfl := Except.ok.inj hret
      obtain ⟨completions, -, hring⟩ := Ring.checkResult_eq_ok hran
      simp only [hring]
      cases reserve <;> rfl
  | enter =>
      cases hidle : s.ring.idle with
      | true =>
          obtain rfl := Except.ok.inj ((exec_enter_idle s hidle).symm.trans hok)
          rfl
      | false =>
          obtain rfl := Except.ok.inj ((exec_enter s hidle).symm.trans hok)
          cases reserve <;> rfl
  | post i result =>
      simp only [exec] at hok
      split at hok <;> obtain rfl := Except.ok.inj hok <;> rfl
  | handle i =>
      simp only [exec] at hok
      split at hok
      · obtain ⟨ran, hran, hret⟩ := bind_eq_ok hok
        obtain rfl := Except.ok.inj hret
        simp only [Ring.handleCompletion] at hran
        split at hran
        · obtain rfl := Except.ok.inj hran
          cases reserve <;> rfl
        · obtain ⟨notified, -, hret⟩ := bind_eq_ok hran
          obtain rfl := Except.ok.inj hret
          cases reserve <;> rfl
      · obtain rfl := Except.ok.inj hok
        rfl
  | leave =>
      obtain rfl := Except.ok.inj hok
      rfl

/-! ## Done -/

/-- Completions stay in the slab for a reason, and so do the queues they hold. -/
structure Tidy (s : System W C) : Prop where
  slots : ∀ slot, s.ring.completions.slab.get slot ≠ none →
    s.occupant slot ∈ owners s.owed ∨ 0 < s.ring.completions.waitingAt slot
  queues : ∀ i < s.ring.completions.queues.queues.length,
    (∃ handle ∈ s.ring.completions.queues.unused, handle.index = i ∧
      s.ring.completions.queues.contents handle = []) ∨
    ∃ slot, s.ring.completions.held slot = some i

theorem Inv.tidy (h : s.Inv) : s.Tidy := by
  constructor
  · intro slot hget
    cases hbox : s.ring.completions.mailbox slot with
    | none => exact absurd (h.wf.mailbox_eq_none_iff.mp hbox) hget
    | some box =>
        cases box with
        | cancelled cancel =>
            exact Or.inl (h.keyed.cover slot (by simp [hbox, Mailbox.expects]))
        | live pending more =>
            cases more with
            | true => exact Or.inl (h.keyed.cover slot (by simp [hbox, Mailbox.expects]))
            | false =>
                have hpending := h.wf.pending_of_last hbox
                refine Or.inr ?_
                simpa [CompletionSet.waitingAt, hbox, Mailbox.waiting, List.length_pos_iff]
                  using hpending
  · intro i hi
    rcases h.wf.balanced.cover i hi with hmem | hheld
    · obtain ⟨handle, hunused, hindex⟩ := List.mem_map.mp hmem
      exact Or.inl ⟨handle, hunused, hindex, h.wf.unused_empty handle hunused⟩
    · exact Or.inr hheld

/-- The completion set is empty once nothing is outstanding and nothing waits. -/
theorem Inv.isEmpty_of_settled (h : s.Inv) (howed : s.owed = [])
    (hwaiting : s.ring.completions.waiting = 0) : s.ring.completions.isEmpty = true := by
  have hget : ∀ slot, s.ring.completions.slab.get slot = none := by
    intro slot
    by_contra hne
    rcases h.tidy.slots slot hne with howner | hpos
    · simp [howed, owners] at howner
    · have hzero := CompletionSet.waiting_eq_zero_iff.mp hwaiting slot
      omega
  have hheld : ∀ slot, s.ring.completions.held slot = none := by
    intro slot
    simp [CompletionSet.held, hget slot]
  have hlength := h.wf.balanced.stock_length_eq_iff.mpr hheld
  rw [List.length_map] at hlength
  rw [CompletionSet.isEmpty, Bool.and_eq_true, Slab.isEmpty_iff]
  exact ⟨hget, by simp [ResultQueues.isEmpty, hlength]⟩

theorem waiting_of_isEmpty (h : s.ring.completions.isEmpty = true) :
    s.ring.completions.waiting = 0 := by
  rw [CompletionSet.isEmpty, Bool.and_eq_true, Slab.isEmpty_iff] at h
  refine CompletionSet.waiting_eq_zero_iff.mpr fun slot => ?_
  simp [CompletionSet.waitingAt, CompletionSet.mailbox, h.1 slot]

theorem Inv.isDone_iff (h : s.Inv) :
    s.ring.isDone = true ↔ s.owed = [] ∧ s.ring.completions.waiting = 0 ∧
      ∀ reserve, (s.ring.register reserve).isFull = true := by
  rw [Ring.isDone_iff, h.tally.idle_iff]
  constructor
  · rintro ⟨howed, hempty, hfull⟩
    exact ⟨howed, waiting_of_isEmpty hempty, hfull⟩
  · rintro ⟨howed, hwaiting, hfull⟩
    exact ⟨howed, h.isEmpty_of_settled howed hwaiting, hfull⟩

theorem Inv.withRing {ring : Ring Request W C} (h : s.Inv) (hsame : s.ring.SameEntries ring) :
    Inv { s with ring := ring } := by
  obtain ⟨hqueue, hactive, hdetached, hcanceled, hcompletions⟩ := hsame
  have howed : owed { s with ring := ring } = s.owed := by rw [owed, owed, hqueue]
  constructor
  · rw [hcompletions]
    exact h.wf
  · rw [hcompletions, howed]
    exact h.keyed
  · rw [hactive, hdetached, howed]
    exact h.tally
  · rw [hcompletions, hqueue, hcanceled]
    exact h.cancelling
  · rw [hcompletions]
    exact h.withdrawn
  · exact h.lastOnly
  · exact h.moreLive
  · rw [hqueue]
    exact h.flushed
  · exact h.truthful

end System

/-! ## The ring and what was counted -/

/-- A ring and its surroundings, the results counted so far and the slots that are
out. -/
structure Ledger (W C : Type) where
  system : System W C
  arrived : Nat
  taken : Nat
  consumed : Nat
  out : List (Reserve × UInt32)

inductive Dealing (W C : Type)
  | call (command : Command W C)
  | getSlot (reserve : Reserve)
  | releaseSlot (reserve : Reserve) (slot : UInt32)
deriving DecidableEq, Repr

namespace Ledger

def start (system : System W C) : Ledger W C := ⟨system, 0, 0, 0, []⟩

def exec (s : Ledger W C) : Dealing W C → Except Panic (Ledger W C)
  | .call command => do
      let system ← s.system.exec command
      return { s with
        system := system, arrived := s.arrived + s.system.arrives command,
        taken := s.taken + s.system.takes command,
        consumed := s.consumed + s.system.consumes command }
  | .getSlot reserve =>
      match s.system.ring.getSlot reserve with
      | (.ok slot, ring) => .ok { s with
          system := { s.system with ring := ring }, out := (reserve, slot) :: s.out }
      | (.error _, ring) => .ok { s with system := { s.system with ring := ring } }
  | .releaseSlot reserve slot => .ok { s with
      system := { s.system with ring := s.system.ring.releaseSlot reserve slot },
      out := s.out.erase (reserve, slot) }

/-- A slot is given back by the one who has it. -/
def permits (s : Ledger W C) : Dealing W C → Bool
  | .call command => s.system.permits command
  | .getSlot _ => true
  | .releaseSlot reserve slot => (reserve, slot) ∈ s.out

def machine (W C : Type) : Machine (Ledger W C) (Dealing W C) Panic where
  init s := ∃ system, (System.machine W C).init system ∧ s = start system
  permits s dealing := s.permits dealing = true
  exec := exec

def Calls (cond : System W C → Command W C → Prop) (s : Ledger W C) : Dealing W C → Prop
  | .call command => cond s.system command
  | _ => True

/-- Every entry completed, every result was taken or consumed, every slot is back. -/
structure Settled (s : Ledger W C) : Prop where
  completed : s.system.owed = []
  read : s.arrived = s.taken + s.consumed
  returned : s.out = []

/-- The ring is done exactly when everything was settled, and what its completion set
holds is for submissions that are not through. -/
def Accounted (s : Ledger W C) : Prop :=
  (s.system.ring.isDone = true ↔ s.Settled) ∧ s.system.Tidy

/-- The slots of a register that are out, held under their own name. -/
def held (out : List (Reserve × UInt32)) (reserve : Reserve) (slot : UInt32) : Option Nat :=
  if (reserve, slot) ∈ out then some slot.toNat else none

structure Inv (s : Ledger W C) : Prop where
  system : s.system.Inv
  counts : s.arrived = s.taken + s.consumed + s.system.ring.completions.waiting
  nodup : s.out.Nodup
  holds : ∀ reserve, (s.system.ring.register reserve).Holds (held s.out reserve)

variable {s s' : Ledger W C} {reserve : Reserve} {slot : UInt32}

theorem start_inv {system : System W C} (h : (System.machine W C).init system) :
    (start system).Inv := by
  obtain ⟨options, entries, occupant, rfl⟩ := h
  constructor
  · exact System.start_inv options entries occupant
  · show 0 = 0 + 0 + CompletionSet.waiting _
    rw [CompletionSet.waiting_eq_zero_iff.mpr fun slot => ?_]
    simp [CompletionSet.waitingAt, start, Ring.build]
  · exact List.nodup_nil
  · intro reserve
    have hheld : held [] reserve = fun _ => none := by
      funext slot
      simp [held]
    change (_ : SlotRegister).Holds (held [] reserve)
    rw [hheld]
    cases reserve with
    | fixedBuffer => exact SlotRegister.new_holds options.fixedBuffers
    | directFile => exact SlotRegister.new_holds options.manualDirectFiles
    | bufferGroup => exact SlotRegister.new_holds options.bufferGroups

theorem Inv.call {command : Command W C} (h : s.Inv)
    (hpermits : s.system.permits command = true) (horderly : s.system.Orderly command)
    (hok : s.exec (.call command) = .ok s') : s'.Inv := by
  obtain ⟨system, hexec, hret⟩ := bind_eq_ok hok
  obtain rfl := Except.ok.inj hret
  have hstep := h.system.waiting_step hpermits horderly.keys hexec
  have hcounts := h.counts
  constructor
  · exact h.system.step hpermits horderly hexec
  · show s.arrived + _ = s.taken + _ + (s.consumed + _) + system.ring.completions.waiting
    omega
  · exact h.nodup
  · intro reserve
    change (system.ring.register reserve).Holds _
    rw [System.register_exec hexec]
    exact h.holds reserve

theorem held_cons : held ((reserve, slot) :: s.out) reserve =
    Function.update (held s.out reserve) slot (some slot.toNat) := by
  funext other
  by_cases heq : other = slot
  · subst heq
    simp [held]
  · simp [held, heq]

theorem held_cons_of_ne {other : Reserve} (hne : other ≠ reserve) :
    held ((reserve, slot) :: s.out) other = held s.out other := by
  funext slot'
  simp [held, hne]

theorem Inv.getSlot (h : s.Inv) (hok : s.exec (.getSlot reserve) = .ok s') : s'.Inv := by
  simp only [exec] at hok
  cases hget : (s.system.ring.register reserve).get with
  | none =>
      obtain ⟨err, hnone⟩ := Ring.getSlot_of_none hget
      rw [hnone] at hok
      obtain rfl := Except.ok.inj hok
      exact h
  | some got =>
      obtain ⟨slot, register⟩ := got
      rw [Ring.getSlot_of_some hget] at hok
      obtain rfl := Except.ok.inj hok
      have hsame := Ring.sameEntries_withRegister s.system.ring reserve register
      have hfresh : (reserve, slot) ∉ s.out := by
        intro hmem
        have hheld : held s.out reserve slot = some slot.toNat := by simp [held, hmem]
        exact (h.holds reserve).not_mayHandOut hheld (SlotRegister.mayHandOut_of_get hget)
      constructor
      · exact h.system.withRing hsame
      · have hcounts := h.counts
        rw [← hsame.completions] at hcounts
        exact hcounts
      · exact List.nodup_cons.mpr ⟨hfresh, h.nodup⟩
      · intro other
        change ((s.system.ring.withRegister reserve register).register other).Holds _
        rw [Ring.register_withRegister]
        by_cases heq : other = reserve
        · subst heq
          rw [Function.update_self, held_cons]
          exact ((h.holds other).get (by simp [held, hfresh]) hget).1
        · rw [Function.update_of_ne heq, held_cons_of_ne heq]
          exact h.holds other

theorem Inv.releaseSlot (h : s.Inv) (hmem : (reserve, slot) ∈ s.out)
    (hok : s.exec (.releaseSlot reserve slot) = .ok s') : s'.Inv := by
  simp only [exec, Ring.releaseSlot_eq] at hok
  obtain rfl := Except.ok.inj hok
  have hsame := Ring.sameEntries_withRegister s.system.ring reserve
    ((s.system.ring.register reserve).remove slot)
  constructor
  · exact h.system.withRing hsame
  · have hcounts := h.counts
    rw [← hsame.completions] at hcounts
    exact hcounts
  · exact h.nodup.erase _
  · intro other
    change ((s.system.ring.withRegister reserve _).register other).Holds _
    rw [Ring.register_withRegister]
    by_cases heq : other = reserve
    · subst heq
      have herase : held (s.out.erase (other, slot)) other =
          Function.update (held s.out other) slot none := by
        funext slot'
        by_cases hslot : slot' = slot
        · subst hslot
          simp [held, h.nodup.mem_erase_iff]
        · simp [held, h.nodup.mem_erase_iff, hslot]
      rw [Function.update_self, herase]
      exact ((h.holds other).remove (by simp [held, hmem])).1
    · have hkeep : held (s.out.erase (reserve, slot)) other = held s.out other := by
        funext slot'
        simp [held, h.nodup.mem_erase_iff, heq]
      rw [Function.update_of_ne heq, hkeep]
      exact h.holds other

theorem Inv.of_reach (h : Reach (machine W C) (Calls System.Orderly) s) : s.Inv := by
  refine h.invariant (I := fun s => s.Inv) ?_ ?_
  · rintro s ⟨system, hinit, rfl⟩
    exact start_inv hinit
  · intro s dealing s' hinv hpermits horderly hok
    cases dealing with
    | call command => exact hinv.call hpermits horderly hok
    | getSlot reserve => exact hinv.getSlot hok
    | releaseSlot reserve slot => exact hinv.releaseSlot (of_decide_eq_true hpermits) hok

/-- All registers are full just when no slot is out. -/
theorem Inv.isFull_iff (h : s.Inv) :
    (∀ reserve, (s.system.ring.register reserve).isFull = true) ↔ s.out = [] := by
  simp only [fun reserve => (h.holds reserve).isFull_iff]
  constructor
  · intro hnone
    refine List.eq_nil_iff_forall_not_mem.mpr fun ⟨reserve, slot⟩ hmem => ?_
    have hslot := hnone reserve slot
    simp [held, hmem] at hslot
  · intro hout reserve slot
    simp [held, hout]

theorem Inv.done_iff_settled (h : s.Inv) : s.system.ring.isDone = true ↔ s.Settled := by
  have hcounts := h.counts
  rw [h.system.isDone_iff, h.isFull_iff]
  constructor
  · rintro ⟨howed, hwaiting, hout⟩
    exact ⟨howed, by omega, hout⟩
  · rintro ⟨howed, hread, hout⟩
    exact ⟨howed, by omega, hout⟩

theorem done_exactly_when_settled (h : Reach (machine W C) (Calls System.Orderly) s) :
    s.Accounted :=
  ⟨(Inv.of_reach h).done_iff_settled, (Inv.of_reach h).system.tidy⟩

def orderly (s : Ledger W C) : Dealing W C → Bool
  | .call command => s.system.orderly command
  | dealing => s.permits dealing

theorem orderly_spec (s : Ledger W C) (dealing : Dealing W C) (h : s.orderly dealing = true) :
    (machine W C).permits s dealing ∧ Calls System.Orderly s dealing := by
  cases dealing with
  | call command => exact System.orderly_spec s.system command h
  | getSlot reserve => exact ⟨h, trivial⟩
  | releaseSlot reserve slot => exact ⟨h, trivial⟩

/-- A submission, a cancelled one and a detached entry beside slots of each kind. -/
theorem done_at_the_end :
    ∃ s : Ledger Unit Unit, s.Accounted ∧ s.arrived = 3 ∧ s.taken = 2 ∧ s.consumed = 1 ∧
      s.system.ring.isDone = true := by
  obtain ⟨s, hreach, htest⟩ := Reach.of_replay (M := machine Unit Unit)
    orderly orderly_spec (.start ⟨_, System.sys_init fun _ => 0, rfl⟩)
    [.getSlot .fixedBuffer, .call (.submit 0 ()), .call (.submit 1 ()), .call .submitDetached,
      .call .enter, .call (.post 0 ⟨7, cqeMore⟩), .call (.handle 0), .call .leave,
      .getSlot .directFile, .getSlot .bufferGroup, .call (.cancel ⟨1⟩ true ()),
      .call (.checkResult ⟨0⟩), .call .enter, .call (.post 1 ⟨-125, 0⟩), .call (.handle 1),
      .call (.post 2 ⟨0, 0⟩), .call (.handle 2), .call (.post 1 ⟨0, 0⟩), .call (.handle 1),
      .call (.post 0 ⟨8, 0⟩), .call (.handle 0), .call .leave, .call (.checkResult ⟨0⟩),
      .releaseSlot .directFile 0, .releaseSlot .fixedBuffer 0, .releaseSlot .bufferGroup 0]
    (fun s => s.arrived = 3 && (s.taken = 2 && (s.consumed = 1 && s.system.ring.isDone))) rfl
  simp only [Bool.and_eq_true, decide_eq_true_eq] at htest
  exact ⟨s, done_exactly_when_settled hreach, htest⟩

/-! ## Runs that are not orderly -/

theorem reach_calls {cond : System W C → Command W C → Prop} {system : System W C}
    (h : Reach (System.machine W C) cond system) :
    ∃ s, Reach (machine W C) (Calls cond) s ∧ s.system = system := by
  induction h with
  | start hinit => exact ⟨start _, .start ⟨_, hinit, rfl⟩, rfl⟩
  | @step system system' command _ hpermits hcond hexec ih =>
      obtain ⟨s, hreach, rfl⟩ := ih
      refine ⟨{ s with
        system := system', arrived := s.arrived + s.system.arrives command,
        taken := s.taken + s.system.takes command,
        consumed := s.consumed + s.system.consumes command },
        hreach.move (.call command) hpermits hcond ?_, rfl⟩
      have hexec' : s.system.exec command = .ok system' := hexec
      simp [machine, exec, hexec', bind, Except.bind, pure, Except.pure]

end Ledger

namespace System

/-- `n` detached entries that nobody completes. -/
theorem reach_detached (cond : System Unit Unit → Command Unit Unit → Prop)
    (hcond : ∀ s command, s.keysFit command = true → s.ignoredOnce command = true →
      s.readsFirst command = true → s.single command = true → cond s command) (n : Nat)
    (hn : n + 2 ≤ 2 ^ 32) :
    ∃ events, Reach (machine Unit Unit) cond (sys [] [] 0 (.ofNat n) (fun _ => 0) 0
      (List.replicate n detachedTaken) false events) := by
  induction n with
  | zero => exact ⟨[], .start (sys_init fun _ => 0)⟩
  | succ n ih =>
      obtain ⟨events, hreach⟩ := ih (by omega)
      have hbusy : (0 + (UInt32.ofNat n + 1 + 1) == 0) = false := by
        rw [UInt32.ofNat_succ, UInt32.ofNat_succ, beq_eq_false_iff_ne, Ne, ← UInt32.toNat_inj,
          UInt32.toNat_add, UInt32.toNat_ofNat', UInt32.toNat_zero]
        omega
      rw [← List.nil_append (List.replicate n detachedTaken)] at hreach
      exact reach_detached_succ cond hcond hbusy hreach

end System

namespace Ledger

/-- A ring that is done while entries are outstanding. -/
theorem not_accounted_of_owed {s : Ledger W C} (hdone : s.system.ring.isDone = true)
    (howed : s.system.owed ≠ []) : ¬ s.Accounted :=
  fun h => howed (h.1.mp hdone).completed

/-- The key of slot `2 ^ 32` is that of the first slot, so the slot stays in the slab. -/
theorem left_behind_keys :
    ∃ s, Reach (machine Unit Unit) (Calls fun s command => s.countersFit command = true ∧
      s.ignoredOnce command = true ∧ s.readsFirst command = true) s ∧ ¬ s.Accounted := by
  obtain ⟨slots, occupant, events, hlen, hsome, hfirst, -, hreach⟩ :=
    System.reach_crowd (fun s command => s.countersFit command = true ∧
        s.ignoredOnce command = true ∧ s.readsFirst command = true)
      (fun _ _ hcounters hignored hreads _ => ⟨hcounters, hignored, hreads⟩) (2 ^ 32 - 1)
      (by omega)
  have hpos : 0 < slots.length := by omega
  have hround := System.reach_round _
    (fun _ _ hcounters hignored hreads _ => ⟨hcounters, hignored, hreads⟩) 0 hsome
    (by rw [hlen]; rfl) (by rw [Slab.get, List.getElem?_append_left hpos]; exact hfirst) hreach
  obtain ⟨s, hreach', hsystem⟩ := reach_calls hround
  refine ⟨s, hreach', fun haccounted => ?_⟩
  have htidy := haccounted.2.slots slots.length
  have hget : Slab.get ⟨(slots ++ [System.fresh]).set 0 System.done⟩ slots.length =
      System.fresh := by
    rw [Slab.get, List.getElem?_set_ne (by omega)]
    simp
  rw [hsystem] at htidy
  rcases htidy (by simp [System.sys, hget]) with howner | hwaiting
  · simp [System.sys, System.owed, owners, System.firstTaken, Request.owner, hlen] at howner
  · simp [System.sys, CompletionSet.waitingAt, CompletionSet.mailbox, hget, Completion.mailbox,
      Mailbox.waiting] at hwaiting

/-- `2 ^ 32` detached entries are outstanding and `detached` is zero. -/
theorem done_early_counters :
    ∃ s, Reach (machine Unit Unit) (Calls fun s command => s.keysFit command = true ∧
      s.ignoredOnce command = true ∧ s.readsFirst command = true) s ∧ ¬ s.Accounted := by
  obtain ⟨n, hn⟩ : ∃ n, n + 2 = 2 ^ 32 := ⟨2 ^ 32 - 2, by omega⟩
  obtain ⟨events, hreach⟩ := System.reach_detached (fun s command =>
    s.keysFit command = true ∧ s.ignoredOnce command = true ∧ s.readsFirst command = true)
    (fun _ _ hkeys hignored hreads _ => ⟨hkeys, hignored, hreads⟩) n (by omega)
  have hpushed : Reach (System.machine Unit Unit) _ (System.sys []
      (List.replicate 2 ⟨.detached, ignoreKey⟩) 0 (.ofNat n + 1 + 1) (fun _ => 0) 0
      (List.replicate n System.detachedTaken) false events) :=
    (hreach.move .submitDetached (by rfl) ⟨rfl, rfl, rfl⟩ (by rfl)).move .submitDetached
      (by rfl) ⟨rfl, rfl, rfl⟩ (by rfl)
  have hzero : UInt32.ofNat n + 1 + 1 = 0 := by
    rw [System.UInt32.ofNat_succ, System.UInt32.ofNat_succ, hn]
    rfl
  rw [hzero] at hpushed
  obtain ⟨s, hreach', hsystem⟩ := reach_calls hpushed
  refine ⟨s, hreach', not_accounted_of_owed ?_ ?_⟩
  · rw [hsystem]
    rfl
  · rw [hsystem]
    simp [System.owed, System.sys]

/-- A detached entry with two completions is counted out twice. -/
theorem done_early_ignored :
    ∃ s, Reach (machine Unit Unit) (Calls fun s command => s.keysFit command = true ∧
      s.countersFit command = true ∧ s.readsFirst command = true) s ∧ ¬ s.Accounted := by
  obtain ⟨system, hreach, htest⟩ := Reach.of_replay (M := System.machine Unit Unit)
    (fun s command => s.permits command &&
      (s.keysFit command && (s.countersFit command && s.readsFirst command)))
    (fun s command h => by simp only [Bool.and_eq_true] at h; exact h)
    (.start (System.sys_init fun _ => 0))
    [.submitDetached, .submitDetached, .enter, .post 0 ⟨0, cqeMore⟩, .post 0 ⟨0, 0⟩,
      .handle 0, .handle 0, .leave]
    (fun s => s.ring.isDone && !s.owed.isEmpty) rfl
  rw [Bool.and_eq_true, Bool.not_eq_true', List.isEmpty_eq_false_iff] at htest
  obtain ⟨s, hreach', rfl⟩ := reach_calls hreach
  exact ⟨s, hreach', not_accounted_of_owed htest.1 htest.2⟩

/-- None of the conditions on keys, counters and ignored entries can be left out. -/
theorem unaccounted_unless_orderly :
    (∃ s, Reach (machine Unit Unit) (Calls fun s command => s.countersFit command = true ∧
      s.ignoredOnce command = true ∧ s.readsFirst command = true) s ∧ ¬ s.Accounted) ∧
    (∃ s, Reach (machine Unit Unit) (Calls fun s command => s.keysFit command = true ∧
      s.ignoredOnce command = true ∧ s.readsFirst command = true) s ∧ ¬ s.Accounted) ∧
    ∃ s, Reach (machine Unit Unit) (Calls fun s command => s.keysFit command = true ∧
      s.countersFit command = true ∧ s.readsFirst command = true) s ∧ ¬ s.Accounted :=
  ⟨left_behind_keys, done_early_counters, done_early_ignored⟩

end Ledger

end Inel.Reactor
