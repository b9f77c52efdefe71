import Inel.Runtime.Machine

/-!
# Mailboxes and their holders

Every live mailbox of the ring is the mailbox of a submission that a task holds, and
every cancelled one was left behind by a submission that was dropped. One lemma for
each way in which a call changes a mailbox together with its holder.
-/

namespace Inel.Runtime

open Transitions
open Reactor hiding Move Phase Stage
open Tasks (TaskId Executor)

theorem getElem?_set_cases {α : Type} {l : List α} {i j : Nat} {a b : α}
    (h : (l.set i a)[j]? = some b) : (j = i ∧ b = a) ∨ (j ≠ i ∧ l[j]? = some b) := by
  by_cases heq : j = i
  · rw [heq, List.getElem?_set_self'] at h
    left
    cases hget : l[i]? with
    | none => simp [hget] at h
    | some old => exact ⟨heq, by simpa [hget] using h.symm⟩
  · rw [List.getElem?_set_ne (Ne.symm heq)] at h
    exact Or.inr ⟨heq, h⟩

variable {O E Out T C : Type}

/-- The mailboxes of the ring against the submissions of the tasks. -/
structure Holds (op : MultiOp O E Out C) (set : CompletionSet TaskId C)
    (occupant : Nat → SubmissionId) (born : Nat) (held : List (Held O)) : Prop where
  live : ∀ (i : Nat) (h : Held O), held[i]? = some h → ∀ key, h.key = some key →
    ∃ pending more, set.mailbox key.asUsize = some (.live pending more) ∧
      Announced pending more ∧ h.id = some (occupant key.asUsize) ∧
      ∀ waker, set.waker key.asUsize = some waker → waker = h.owner
  covered : ∀ slot pending more, set.mailbox slot = some (.live pending more) →
    ∃ (i : Nat) (h : Held O) (key : Key), held[i]? = some h ∧ h.key = some key ∧
      key.asUsize = slot
  cancelled : ∀ slot cancel, set.mailbox slot = some (.cancelled cancel) →
    ∃ (i : Nat) (h : Held O), held[i]? = some h ∧ h.dropped = true ∧
      h.id = some (occupant slot) ∧ cancel = op.cancel h.submission.op
  apart : ∀ (i j : Nat) (h h' : Held O) (id : SubmissionId), held[i]? = some h →
    held[j]? = some h' → h.id = some id → h'.id = some id → i = j
  born : ∀ (i : Nat) (h : Held O), held[i]? = some h → ∀ id, h.id = some id → id < born

namespace Held

variable {h : Held O} {key : Key}

theorem key_eq_some (hkey : h.key = some key) :
    h.submission.state = .submitted key ∧ h.dropped = false := by
  unfold Held.key at hkey
  split at hkey
  · next other hstate =>
      split at hkey
      · simp at hkey
      · next hdropped => exact ⟨by rw [hstate, Option.some.inj hkey], by simpa using hdropped⟩
  · simp at hkey

theorem key_of_submitted (hstate : h.submission.state = .submitted key)
    (hdropped : h.dropped = false) : h.key = some key := by
  simp [Held.key, hstate, hdropped]

theorem key_of_dropped (hdropped : h.dropped = true) : h.key = none := by
  unfold Held.key
  split <;> simp [hdropped]

end Held

namespace Holds

variable {op : MultiOp O E Out C} {set set' : CompletionSet TaskId C}
  {occupant : Nat → SubmissionId} {born : Nat} {held : List (Held O)} {i : Nat}
  {h h' : Held O} {key : Key} {box : Option (Mailbox C)}

/-- No two submissions hold one slot. -/
theorem slot_ne (hs : Holds op set occupant born held) (hget : held[i]? = some h)
    (hkey : h.key = some key) {j : Nat} {other : Held O} {key' : Key}
    (hother : held[j]? = some other) (hkey' : other.key = some key') (hne : j ≠ i) :
    key'.asUsize ≠ key.asUsize := by
  intro heq
  obtain ⟨-, -, -, -, hid, -⟩ := hs.live i h hget key hkey
  obtain ⟨-, -, -, -, hid', -⟩ := hs.live j other hother key' hkey'
  rw [heq] at hid'
  exact hne (hs.apart j i other h _ hother hget hid' hid)

theorem touch (hs : Holds op set occupant born held) (hget : held[i]? = some h)
    (hkey : h.key = some key) (hupd : set.Touches set' key.asUsize box) (hid : h'.id = h.id)
    (howner : h'.owner = h.owner)
    (hlive : ∀ pending more, box = some (.live pending more) → h'.key = some key)
    (hkept : ∀ key', h'.key = some key' → key' = key ∧
      ∃ pending more, box = some (.live pending more) ∧ Announced pending more)
    (hcancelled : ∀ cancel, box = some (.cancelled cancel) →
      h'.dropped = true ∧ cancel = op.cancel h'.submission.op) :
    Holds op set' occupant born (held.set i h') := by
  obtain ⟨-, -, -, -, hown, hwaker⟩ := hs.live i h hget key hkey
  have hhere : (held.set i h')[i]? = some h' :=
    List.getElem?_set_self (List.getElem?_eq_some_iff.mp hget).1
  have hothers : ∀ {j : Nat} {g : Held O}, held[j]? = some g → j ≠ i →
      (held.set i h')[j]? = some g := by
    intro j g hg hne
    rwa [List.getElem?_set_ne (Ne.symm hne)]
  have hcases := fun {j : Nat} {g : Held O} => getElem?_set_cases (l := held) (i := i) (j := j)
    (a := h') (b := g)
  constructor
  · intro j g hg key' hkey'
    rcases hcases hg with ⟨rfl, rfl⟩ | ⟨hne, hg⟩
    · obtain ⟨rfl, pending, more, hbox, hannounced⟩ := hkept key' hkey'
      refine ⟨pending, more, by rw [hupd.here, hbox], hannounced, by rw [hid, hown], ?_⟩
      intro waker hasked
      rw [howner]
      rcases hupd.kept with hsame | hgone
      · exact hwaker waker (hsame ▸ hasked)
      · simp [hgone] at hasked
    · have hslot := hs.slot_ne hget hkey hg hkey' hne
      rw [hupd.others _ hslot, hupd.wakers _ hslot]
      exact hs.live j g hg key' hkey'
  · intro slot pending more hbox
    by_cases hslot : slot = key.asUsize
    · rw [hslot, hupd.here] at hbox
      exact ⟨i, h', key, hhere, hlive pending more hbox, hslot.symm⟩
    · rw [hupd.others slot hslot] at hbox
      obtain ⟨j, g, key', hg, hkey', hseat⟩ := hs.covered slot pending more hbox
      refine ⟨j, g, key', hothers hg ?_, hkey', hseat⟩
      intro heq
      rw [heq, hget] at hg
      obtain rfl := Option.some.inj hg
      obtain rfl := Option.some.inj (hkey'.symm.trans hkey)
      exact hslot hseat.symm
  · intro slot cancel hbox
    by_cases hslot : slot = key.asUsize
    · rw [hslot, hupd.here] at hbox
      obtain ⟨hdropped, hcancel⟩ := hcancelled cancel hbox
      exact ⟨i, h', hhere, hdropped, by rw [hslot, hid, hown], hcancel⟩
    · rw [hupd.others slot hslot] at hbox
      obtain ⟨j, g, hg, hdropped, hrest⟩ := hs.cancelled slot cancel hbox
      refine ⟨j, g, hothers hg ?_, hdropped, hrest⟩
      intro heq
      rw [heq, hget] at hg
      obtain rfl := Option.some.inj hg
      simp [Held.key_of_dropped hdropped] at hkey
  · intro j k g g' id hg hg' hgid hgid'
    rcases hcases hg with ⟨rfl, rfl⟩ | ⟨-, hone⟩ <;> rcases hcases hg' with ⟨rfl, rfl⟩ | ⟨-, htwo⟩
    · rfl
    · exact hs.apart j k h g' id hget htwo (hid ▸ hgid) hgid'
    · exact hs.apart j k g h id hone hget hgid (hid ▸ hgid')
    · exact hs.apart j k g g' id hone htwo hgid hgid'
  · intro j g hg id hgid
    rcases hcases hg with ⟨rfl, rfl⟩ | ⟨-, hg⟩
    · exact hs.born j h hget id (hid ▸ hgid)
    · exact hs.born j g hg id hgid

theorem submit (hs : Holds op set occupant born held) (hget : held[i]? = some h)
    (hnone : h.key = none) (hdropped : h.dropped = false) {slot : Nat}
    (hins : Ring.Inserts set set' slot h.owner) (hslot : key.asUsize = slot)
    (hkey : h'.key = some key) (hid : h'.id = some born) (howner : h'.owner = h.owner) :
    Holds op set' (Function.update occupant slot born) (born + 1) (held.set i h') := by
  have hhere : (held.set i h')[i]? = some h' :=
    List.getElem?_set_self (List.getElem?_eq_some_iff.mp hget).1
  have hcases := fun {j : Nat} {g : Held O} => getElem?_set_cases (l := held) (i := i) (j := j)
    (a := h') (b := g)
  have hold : ∀ {j : Nat} {g : Held O}, held[j]? = some g →
      ((g.key).isSome ∨ g.dropped = true) → (held.set i h')[j]? = some g := by
    intro j g hg hmark
    have hne : j ≠ i := by
      rintro rfl
      obtain rfl := Option.some.inj (hg.symm.trans hget)
      simp [hnone, hdropped] at hmark
    rwa [List.getElem?_set_ne (Ne.symm hne)]
  constructor
  · intro j g hg key' hkey'
    rcases hcases hg with ⟨rfl, rfl⟩ | ⟨hne, hg⟩
    · obtain rfl := Option.some.inj (hkey.symm.trans hkey')
      rw [hslot]
      refine ⟨[], true, hins.here, rfl, by rw [hid, Function.update_self], ?_⟩
      intro waker hwaker
      rw [hins.awake] at hwaker
      rw [howner, Option.some.inj hwaker]
    · obtain ⟨pending, more, hbox, hrest⟩ := hs.live j g hg key' hkey'
      have hne : key'.asUsize ≠ slot := by
        intro heq
        rw [heq, hins.vacant] at hbox
        simp at hbox
      rw [hins.others _ hne, hins.wakers _ hne, Function.update_of_ne hne]
      exact ⟨pending, more, hbox, hrest⟩
  · intro other pending more hbox
    by_cases heq : other = slot
    · exact ⟨i, h', key, hhere, hkey, by rw [hslot, heq]⟩
    · rw [hins.others other heq] at hbox
      obtain ⟨j, g, key', hg, hkey', hseat⟩ := hs.covered other pending more hbox
      exact ⟨j, g, key', hold hg (Or.inl (by simp [hkey'])), hkey', hseat⟩
  · intro other cancel hbox
    have hne : other ≠ slot := by
      rintro rfl
      rw [hins.here] at hbox
      simp at hbox
    rw [hins.others other hne] at hbox
    obtain ⟨j, g, hg, hdrop, hrest⟩ := hs.cancelled other cancel hbox
    rw [Function.update_of_ne hne]
    exact ⟨j, g, hold hg (Or.inr hdrop), hdrop, hrest⟩
  · intro j k g g' id hg hg' hgid hgid'
    rcases hcases hg with ⟨rfl, rfl⟩ | ⟨-, hone⟩ <;> rcases hcases hg' with ⟨rfl, rfl⟩ | ⟨-, htwo⟩
    · rfl
    · obtain rfl := Option.some.inj (hid.symm.trans hgid)
      exact absurd (hs.born k g' htwo _ hgid') (Nat.lt_irrefl _)
    · obtain rfl := Option.some.inj (hid.symm.trans hgid')
      exact absurd (hs.born j g hone _ hgid) (Nat.lt_irrefl _)
    · exact hs.apart j k g g' id hone htwo hgid hgid'
  · intro j g hg id hgid
    rcases hcases hg with ⟨rfl, rfl⟩ | ⟨-, hg⟩
    · obtain rfl := Option.some.inj (hid.symm.trans hgid)
      exact Nat.lt_succ_self _
    · exact Nat.lt_succ_of_lt (hs.born j g hg id hgid)

theorem replace (hs : Holds op set occupant born held) (hget : held[i]? = some h)
    (hnone : h.key = none) (hdropped : h.dropped = false) (hnone' : h'.key = none)
    (hid : h'.id = h.id) : Holds op set occupant born (held.set i h') := by
  have hcases := fun {j : Nat} {g : Held O} => getElem?_set_cases (l := held) (i := i) (j := j)
    (a := h') (b := g)
  have hold : ∀ {j : Nat} {g : Held O}, held[j]? = some g →
      ((g.key).isSome ∨ g.dropped = true) → (held.set i h')[j]? = some g := by
    intro j g hg hmark
    have hne : j ≠ i := by
      rintro rfl
      obtain rfl := Option.some.inj (hg.symm.trans hget)
      simp [hnone, hdropped] at hmark
    rwa [List.getElem?_set_ne (Ne.symm hne)]
  constructor
  · intro j g hg key' hkey'
    rcases hcases hg with ⟨rfl, rfl⟩ | ⟨-, hg⟩
    · simp [hnone'] at hkey'
    · exact hs.live j g hg key' hkey'
  · intro slot pending more hbox
    obtain ⟨j, g, key', hg, hkey', hseat⟩ := hs.covered slot pending more hbox
    exact ⟨j, g, key', hold hg (Or.inl (by simp [hkey'])), hkey', hseat⟩
  · intro slot cancel hbox
    obtain ⟨j, g, hg, hdrop, hrest⟩ := hs.cancelled slot cancel hbox
    exact ⟨j, g, hold hg (Or.inr hdrop), hdrop, hrest⟩
  · intro j k g g' id hg hg' hgid hgid'
    rcases hcases hg with ⟨rfl, rfl⟩ | ⟨-, hone⟩ <;> rcases hcases hg' with ⟨rfl, rfl⟩ | ⟨-, htwo⟩
    · rfl
    · exact hs.apart j k h g' id hget htwo (hid ▸ hgid) hgid'
    · exact hs.apart j k g h id hone hget hgid (hid ▸ hgid')
    · exact hs.apart j k g g' id hone htwo hgid hgid'
  · intro j g hg id hgid
    rcases hcases hg with ⟨rfl, rfl⟩ | ⟨-, hg⟩
    · exact hs.born j h hget id (hid ▸ hgid)
    · exact hs.born j g hg id hgid

theorem create (hs : Holds op set occupant born held) (owner : TaskId) (value : O) :
    Holds op set occupant born (held ++ [Held.new owner value]) := by
  have hcases : ∀ {j : Nat} {g : Held O}, (held ++ [Held.new owner value])[j]? = some g →
      held[j]? = some g ∨ g = Held.new owner value := by
    intro j g hg
    rcases Nat.lt_or_ge j held.length with hlt | hge
    · exact Or.inl (by rwa [List.getElem?_append_left hlt] at hg)
    · rw [List.getElem?_append_right hge] at hg
      exact Or.inr (List.mem_singleton.mp (List.mem_of_getElem? hg))
  have hold : ∀ {j : Nat} {g : Held O}, held[j]? = some g →
      (held ++ [Held.new owner value])[j]? = some g := fun hg => by
    rw [List.getElem?_append_left (List.getElem?_eq_some_iff.mp hg).1, hg]
  constructor
  · intro j g hg key' hkey'
    rcases hcases hg with hg | rfl
    · exact hs.live j g hg key' hkey'
    · simp [Held.new, Submission.new, Held.key] at hkey'
  · intro slot pending more hbox
    obtain ⟨j, g, key', hg, hrest⟩ := hs.covered slot pending more hbox
    exact ⟨j, g, key', hold hg, hrest⟩
  · intro slot cancel hbox
    obtain ⟨j, g, hg, hrest⟩ := hs.cancelled slot cancel hbox
    exact ⟨j, g, hold hg, hrest⟩
  · intro j k g g' id hg hg' hgid hgid'
    rcases hcases hg with hg | rfl
    · rcases hcases hg' with hg' | rfl
      · exact hs.apart j k g g' id hg hg' hgid hgid'
      · simp [Held.new] at hgid'
    · simp [Held.new] at hgid
  · intro j g hg id hgid
    rcases hcases hg with hg | rfl
    · exact hs.born j g hg id hgid
    · simp [Held.new] at hgid

theorem notify {pending : List RingResult} {more : Bool} (hs : Holds op set occupant born held)
    (hget : held[i]? = some h) (hkey : h.key = some key)
    (hupd : set.Touches set' key.asUsize (some (.live pending more)))
    (hannounced : Announced pending more) : Holds op set' occupant born held := by
  have hsame : held.set i h = held := by
    obtain ⟨hlt, rfl⟩ := List.getElem?_eq_some_iff.mp hget
    exact List.set_getElem_self hlt
  rw [← hsame]
  refine hs.touch hget hkey hupd rfl rfl (fun _ _ _ => hkey) ?_ (by simp)
  intro key' hkey'
  exact ⟨Option.some.inj (hkey'.symm.trans hkey), pending, more, rfl, hannounced⟩

theorem consume {slot : Nat} {cancel : C} (hs : Holds op set occupant born held)
    (hbox : set.mailbox slot = some (.cancelled cancel)) (hupd : set.Updates set' slot none) :
    Holds op set' occupant born held := by
  have hne : ∀ other pending more, set.mailbox other = some (.live pending more) →
      other ≠ slot := by
    rintro other pending more hlive rfl
    simp [hbox] at hlive
  have hback : ∀ other box, set'.mailbox other = some box → other ≠ slot := by
    rintro other box hother rfl
    simp [hupd.here] at hother
  refine ⟨?_, ?_, ?_, hs.apart, hs.born⟩
  · intro j g hg key' hkey'
    obtain ⟨pending, more, hlive, hrest⟩ := hs.live j g hg key' hkey'
    have hslot := hne _ pending more hlive
    rw [hupd.others _ hslot, hupd.wakers _ hslot]
    exact ⟨pending, more, hlive, hrest⟩
  · intro other pending more hother
    rw [hupd.others other (hback other _ hother)] at hother
    exact hs.covered other pending more hother
  · intro other cancel' hother
    rw [hupd.others other (hback other _ hother)] at hother
    exact hs.cancelled other cancel' hother

end Holds

end Inel.Runtime
