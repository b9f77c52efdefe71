import Inel.Runtime.Invariant

/-!
# Polling and dropping

What a task's call on one of its submissions does to the mailboxes, to the holder and
to the executor, from any state in which the invariant holds.
-/

namespace Inel.Runtime

open Transitions
open Reactor hiding Move Phase Stage
open Tasks (TaskId Executor)

variable {O E Out T C : Type}

/-- A poll, by what it did to the mailboxes and to its submission. -/
inductive PollSpec (r r' : Runtime O T C) (streams : Bool) (held held' : Held O) : Prop
  | submits (key : Key) (hstate : held.submission.state = .initial)
      (hins : Ring.Inserts r.system.ring.completions r'.system.ring.completions key.asUsize
        held.owner)
      (hkey : held'.key = some key) (hid : held'.id = some r.system.born)
      (huses : held'.uses = held.uses ++ [.entry])
      (hoccupant : r'.system.occupant =
        Function.update r.system.occupant key.asUsize r.system.born)
      (hborn : r'.system.born = r.system.born + 1)
  | checks (key : Key) (pending : List RingResult) (more : Bool) (uses : List OpUse)
      (hkey : held.key = some key)
      (hbox : r.system.ring.completions.mailbox key.asUsize = some (.live pending more))
      (hannounced : Announced pending more)
      (htouches : r.system.ring.completions.Touches r'.system.ring.completions key.asUsize
        (Mailbox.remaining pending.tail more))
      (hnext : held'.submission = ⟨held.submission.op, checked key pending.head?⟩)
      (hid : held'.id = held.id) (huses : held'.uses = held.uses ++ uses)
      (hstreams : ∀ result, pending.head? = some result → result.hasMore = true →
        streams = true → uses = [])
      (hnone : pending = [] → uses = [])
      (hoccupant : r'.system.occupant = r.system.occupant)
      (hborn : r'.system.born = r.system.born)
  | ends (hkey : held.key = none) (hsystem : r'.system = r.system) (hsame : held' = held)

variable {op : MultiOp O E Out C} {r r' : Runtime O T C}

theorem held_of_any {held : List (Held O)} {i : Nat} {test : Held O → Bool}
    (h : held[i]?.any test = true) : ∃ g, held[i]? = some g ∧ test g = true := by
  cases hget : held[i]? with
  | none => simp [hget] at h
  | some g => exact ⟨g, rfl, by simpa [hget] using h⟩

theorem Inv.follow (h : Inv op r) {move : Move O T} {c : Command TaskId C}
    {system : System TaskId C} (hpermits : r.permits op move = true) (hcalm : r.Calm op move)
    (hcommand : r.command op move = some c) (hok : r.system.exec c = .ok system) :
    Reach (System.machine TaskId C) System.Orderly system := by
  refine h.system.move c ?_ (hcalm c hcommand) hok
  simp only [permits, Bool.and_eq_true, hcommand, Option.all_some] at hpermits
  exact hpermits.2

theorem polled_settles {held : Held O} {before after : Option TaskId}
    (hphase : r.executor.phase = .polling held.owner)
    (hkept : before = none ∨ after = before ∨ after = none)
    (hafter : before = none → ∀ id, after = some id → id = held.owner)
    (hbefore : ∀ id, before = some id → id = held.owner) : Settles r.executor before after where
  calls := by simp [Executor.calls, hphase]
  kept := by
    intro id hid
    rcases hkept with hnone | hkept
    · simp [hnone] at hid
    · exact hkept
  clones := by
    intro id hid hnone
    simp [Executor.canBorrow, hphase, hafter hnone id hid]
  drops := by
    intro id hid _
    simp [Executor.loopRefs, hphase, hbefore id hid]

theorem Inv.held_live (h : Inv op r) {i : Nat} {held : Held O} {key : Key}
    (hget : r.held[i]? = some held) (hkey : held.key = some key) :
    ∃ pending more, r.system.ring.completions.mailbox key.asUsize = some (.live pending more) ∧
      Announced pending more ∧ ∀ waker,
        r.system.ring.completions.waker key.asUsize = some waker → waker = held.owner := by
  obtain ⟨pending, more, hbox, hannounced, -, hwaker⟩ := h.holds.live i held hget key hkey
  exact ⟨pending, more, hbox, hannounced, hwaker⟩

theorem Inv.answered {α : Type} {i slot : Nat} {move : Move O T} {held : Held O}
    {streams : Bool} {polled : Polled α O Request TaskId C} (h : Inv op r)
    (hget : r.held[i]? = some held) (hdropped : held.dropped = false)
    (hphase : r.executor.phase = .polling held.owner)
    (hpermits : r.permits op move = true) (hcalm : r.Calm op move)
    (hcommand : r.command op move = command.asks slot held)
    (hanswered : Answered r.system streams held.submission slot held.owner polled)
    (hok : r.answered i held slot polled = .ok r') :
    (∃ held', PollSpec r r' streams held held' ∧ r'.held = r.held.set i held' ∧
      held'.owner = held.owner ∧ held'.dropped = false) ∧
      Inv op r' ∧ Undisturbed r.executor r'.executor := by
  obtain ⟨value, hvalue, hret⟩ := bind_eq_ok hok
  obtain rfl := Except.ok.inj hret
  have hbooks := h.books
  have hexec := hanswered.exec rfl rfl
  have hreach : Reach (System.machine TaskId C) System.Orderly
      (afterPoll r.system held.submission.state slot polled.ring) := by
    rcases hexec with ⟨-, hsame⟩ | ⟨c, hasks, hran⟩
    · rw [hsame]
      exact h.system
    · exact h.follow hpermits hcalm (hcommand.trans hasks) hran
  have hasked : r.asked ≤
      (afterPoll r.system held.submission.state slot polled.ring).owed.length := by
    rcases hexec with ⟨-, hsame⟩ | ⟨c, hasks, hran⟩
    · rw [hsame]
      exact h.asked
    · refine h.asked.trans (owed_length_le hran ?_)
      rintro j rfl
      simp only [command.asks] at hasks
      split at hasks <;> simp at hasks
  cases hanswered with
  | submits key hstate hsubmit hnext huses =>
      have hasks : r.command op move = some (.submit slot held.owner) := by
        rw [hcommand]
        simp only [command.asks, hstate]
      obtain ⟨hkeys, -, -, -⟩ := hcalm _ hasks
      simp only [permits, Bool.and_eq_true, hasks, Option.all_some, System.permits] at hpermits
      obtain ⟨hseat, hins⟩ := Ring.submit_inserts hbooks.wf hpermits.2.2
        (by simpa [System.keysFit] using hkeys) hsubmit
      have hset : (afterPoll r.system held.submission.state slot polled.ring).ring.completions =
          polled.ring.completions := by
        simp only [afterPoll, hstate]
      have hslot : held.seat slot = slot := by
        simp only [Held.seat, hstate]
      have hkey : ({ held with
          submission := polled.submission, id := if held.submission.state = .initial then
            some r.system.born else held.id, uses := held.uses ++ polled.uses } :
          Held O).key = some key := Held.key_of_submitted hnext hdropped
      have hnone : held.key = none := by simp [Held.key, hstate]
      rw [hslot]
      refine ⟨⟨_, .submits key hstate ?_ hkey (by simp [hstate]) (by simp [huses])
        (by simp [called, afterPoll, hstate, hseat]) (by simp [called, afterPoll, hstate]),
        rfl, rfl, hdropped⟩, h.call _ _ _ hreach ?_ ?_ ?_ ?_ ?_ hasked⟩
      · simpa only [called, hset, hseat] using hins
      · simp only [afterPoll, hstate]
      · rw [hset]
        refine polled_settles hphase (Or.inl hins.asleep) ?_ ?_
        · intro _ id hid
          rw [hins.awake] at hid
          exact (Option.some.inj hid).symm
        · intro id hid
          simp [hins.asleep] at hid
      · rw [hset, hins.awake, hins.asleep]
        exact hins.census
      · have hholds := h.holds.submit hget hnone hdropped hins hseat hkey
          (by simp [hstate]) rfl
        simpa only [afterPoll, hstate] using hholds
      · exact owners_of_set hget rfl id
  | checks key ran hstate hcheck hring hnext huses hnone =>
      have hown : held.key = some key := Held.key_of_submitted hstate hdropped
      obtain ⟨pending, more, hbox, hannounced, hwaker⟩ := h.held_live hget hown
      obtain ⟨hvalue', htouches⟩ := Ring.checkResult_touches hbooks.wf hbox hcheck
      have hset : (afterPoll r.system held.submission.state slot polled.ring).ring.completions =
          ran.state.completions := by
        simp only [afterPoll, hstate, hring]
      have hslot : held.seat slot = key.asUsize := by
        simp only [Held.seat, hstate]
      rw [hvalue'] at hnext huses hnone
      rw [hslot]
      refine ⟨⟨_, .checks key pending more polled.uses hown hbox hannounced ?_ hnext
        (by simp [hstate]) rfl huses ?_ (by simp [called, afterPoll, hstate])
        (by simp [called, afterPoll, hstate]), rfl, rfl, hdropped⟩,
        h.call _ _ _ hreach ?_ ?_ ?_ ?_ ?_ hasked⟩
      · simpa only [called, hset] using htouches
      · intro hempty
        exact hnone (by rw [hempty]; rfl)
      · simp only [afterPoll, hstate]
      · rw [hset]
        refine polled_settles hphase (Or.inr htouches.kept) ?_ hwaker
        intro hasleep id hid
        rcases htouches.kept with hsame | hgone
        · rw [hsame, hasleep] at hid
          simp at hid
        · simp [hgone] at hid
      · rw [hset]
        exact htouches.census
      · simp only [afterPoll, hstate, hring]
        refine h.holds.touch hget hown htouches (by simp) rfl ?_ ?_ ?_
        · intro left more' hleft
          refine Held.key_of_submitted ?_ hdropped
          rw [hnext]
          cases pending with
          | nil => rfl
          | cons result rest =>
              rcases hannounced with ⟨hmore, -⟩ | ⟨-, rfl, rfl⟩
              · simp [checked, hmore]
              · simp [Mailbox.remaining] at hleft
        · intro key' hkey'
          obtain ⟨hstate', -⟩ := Held.key_eq_some hkey'
          rw [hnext] at hstate'
          cases pending with
          | nil =>
              obtain rfl : more = true := hannounced
              exact ⟨(SubmissionState.submitted.inj hstate').symm, [], true, rfl, rfl⟩
          | cons result rest =>
              rcases hannounced with ⟨hmore, hrest⟩ | ⟨hlast, -, -⟩
              · simp only [checked, List.head?_cons, hmore, if_true,
                  SubmissionState.submitted.injEq] at hstate'
                exact ⟨hstate'.symm, rest, more, hrest.remaining, hrest⟩
              · simp [checked, hlast] at hstate'
        · intro cancel hcancel
          unfold Mailbox.remaining at hcancel
          split at hcancel <;> simp at hcancel
      · exact owners_of_set hget rfl id
  | ends hstate hring hnext huses =>
      have hnone : held.key = none := by simp [Held.key, hstate]
      have hsystem : afterPoll r.system held.submission.state slot polled.ring = r.system := by
        simp only [afterPoll, hstate, hring]
      have hsame : ({ held with
          submission := polled.submission, id := if held.submission.state = .initial then
            some r.system.born else held.id, uses := held.uses ++ polled.uses } : Held O) =
          held := by
        simp [hstate, hnext, huses]
      rw [hsame, hsystem]
      refine ⟨⟨held, .ends hnone rfl rfl, rfl, rfl, hdropped⟩,
        h.call _ _ _ h.system rfl ?_ (List.Perm.refl _) ?_ ?_ h.asked⟩
      · exact ⟨by simp [Executor.calls, hphase], fun _ _ => Or.inl rfl,
          fun id hid hno => by simp [hid] at hno, fun id hid hno => by simp [hid] at hno⟩
      · exact h.holds.replace hget hnone hdropped hnone rfl
      · exact owners_of_set hget rfl id

theorem held_of_polls {i slot : Nat} {move : Move O T}
    (hmove : move = .poll i slot ∨ move = .pollNext i slot)
    (hpermits : r.permits op move = true) : ∃ held, r.held[i]? = some held ∧
      held.dropped = false ∧ r.executor.phase = .polling held.owner ∧
      r.command op move = command.asks slot held := by
  obtain ⟨held, hget, htest⟩ : ∃ held, r.held[i]? = some held ∧
      (!held.dropped && r.executor.phase == .polling held.owner) = true := by
    rcases hmove with rfl | rfl <;>
      simp only [permits, allows, Bool.and_eq_true] at hpermits <;>
      exact held_of_any (by simpa using hpermits.1)
  simp only [Bool.and_eq_true, Bool.not_eq_true', beq_iff_eq] at htest
  refine ⟨held, hget, htest.1, htest.2, ?_⟩
  rcases hmove with rfl | rfl <;> simp [command, hget]

theorem Inv.poll {i slot : Nat} (h : Inv op r) (hpermits : r.permits op (.poll i slot) = true)
    (hcalm : r.Calm op (.poll i slot)) (hok : r.exec op (.poll i slot) = .ok r') :
    (∃ held held', r.held[i]? = some held ∧ r.executor.phase = .polling held.owner ∧
      held.dropped = false ∧ PollSpec r r' false held held' ∧ r'.held = r.held.set i held' ∧
      held'.owner = held.owner ∧ held'.dropped = false) ∧
      Inv op r' ∧ Undisturbed r.executor r'.executor := by
  obtain ⟨held, hget, hdropped, hphase, hcommand⟩ := held_of_polls (Or.inl rfl) hpermits
  simp only [exec, hget] at hok
  obtain ⟨polled, hpoll, hanswer⟩ := bind_eq_ok hok
  obtain ⟨value, hvalue, -⟩ := bind_eq_ok hanswer
  obtain ⟨⟨held', hspec, hrest⟩, hinv⟩ := h.answered hget hdropped hphase hpermits hcalm hcommand
    (answered_of_poll hpoll ⟨value, hvalue⟩) hanswer
  exact ⟨⟨held, held', hget, hphase, hdropped, hspec, hrest⟩, hinv⟩

theorem Inv.pollNext {i slot : Nat} (h : Inv op r)
    (hpermits : r.permits op (.pollNext i slot) = true)
    (hcalm : r.Calm op (.pollNext i slot)) (hok : r.exec op (.pollNext i slot) = .ok r') :
    (∃ held held', r.held[i]? = some held ∧ r.executor.phase = .polling held.owner ∧
      held.dropped = false ∧ PollSpec r r' true held held' ∧ r'.held = r.held.set i held' ∧
      held'.owner = held.owner ∧ held'.dropped = false) ∧
      Inv op r' ∧ Undisturbed r.executor r'.executor := by
  obtain ⟨held, hget, hdropped, hphase, hcommand⟩ := held_of_polls (Or.inr rfl) hpermits
  simp only [exec, hget] at hok
  obtain ⟨polled, hpoll, hanswer⟩ := bind_eq_ok hok
  obtain ⟨value, hvalue, -⟩ := bind_eq_ok hanswer
  obtain ⟨⟨held', hspec, hrest⟩, hinv⟩ := h.answered hget hdropped hphase hpermits hcalm hcommand
    (answered_of_pollNext hpoll ⟨value, hvalue⟩) hanswer
  exact ⟨⟨held, held', hget, hphase, hdropped, hspec, hrest⟩, hinv⟩

end Inel.Runtime
