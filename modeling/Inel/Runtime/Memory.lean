import Inel.Runtime.Progress

/-!
# What an outstanding entry points to

The memory of an entry stands in the op it was made from. As long as the entry is
outstanding that op is in its submission, used for nothing but the entry, or it was
turned into a cancellation, which the completion set keeps.
-/

namespace Inel.Runtime

open Transitions
open Reactor hiding Move Phase Stage
open Tasks (TaskId Executor)

variable {O E Out T C : Type}

/-- A future's poll does not take a result that announces more, which is for streams. -/
def takesLast (r : Runtime O T C) : Move O T → Bool
  | .poll i _ => (r.held[i]?).all fun held => held.key.all fun key =>
      (r.system.ring.unread key).head?.all (!·.hasMore)
  | _ => true

def Streaming (op : MultiOp O E Out C) (r : Runtime O T C) (move : Move O T) : Prop :=
  r.Calm op move ∧ r.takesLast move = true

/-- The op of a submission that may be outstanding was used for its entry and nothing
else. -/
structure Unspent (held : Held O) : Prop where
  fresh : held.dropped = false → held.submission.state = .initial → held.uses = []
  asked : ∀ key, held.key = some key → held.uses = [.entry]

variable {op : MultiOp O E Out C} {r r' : Runtime O T C}

theorem unread_of_live {ring : Ring E TaskId C} {key : Key} {pending : List RingResult}
    {more : Bool} (hbox : ring.completions.mailbox key.asUsize = some (.live pending more)) :
    ring.unread key = pending := by
  simp [Ring.unread, hbox]

theorem PollSpec.unspent {streams : Bool} {held held' : Held O} (h : Unspent held)
    (hdropped : held.dropped = false) (hspec : PollSpec r r' streams held held')
    (htakes : streams = false → ∀ key, held.key = some key →
      (r.system.ring.unread key).head?.all (!·.hasMore) = true) : Unspent held' := by
  cases hspec with
  | submits key hstate hins hkey hid huses hoccupant hborn =>
      have hentry : held'.uses = [.entry] := by
        rw [huses, h.fresh hdropped hstate, List.nil_append]
      refine ⟨fun _ hfresh => ?_, fun _ _ => hentry⟩
      simp [(Held.key_eq_some hkey).1] at hfresh
  | checks key pending more uses hkey hbox hannounced htouches hnext hid huses hstreams hnone =>
      have hlast : ∀ result, pending.head? = some result → streams = false →
          result.hasMore = false := by
        intro result hresult hplain
        have hall := htakes hplain key hkey
        rw [unread_of_live hbox, hresult] at hall
        simpa using hall
      refine ⟨fun _ hfresh => ?_, fun key' hkey' => ?_⟩
      · rw [hnext] at hfresh
        cases hhead : pending.head? with
        | none => simp [hhead, checked] at hfresh
        | some result =>
            simp only [hhead, checked] at hfresh
            split at hfresh <;> simp at hfresh
      · have hsame : uses = [] := by
          obtain ⟨hstate, -⟩ := Held.key_eq_some hkey'
          rw [hnext] at hstate
          cases hhead : pending.head? with
          | none => exact hnone (List.head?_eq_none_iff.mp hhead)
          | some result =>
              cases hmore : result.hasMore with
              | false => simp [hhead, checked, hmore] at hstate
              | true =>
                  cases hplain : streams with
                  | false => simp [hlast result hhead hplain] at hmore
                  | true => exact hstreams result hhead hmore hplain
        rw [huses, hsame, List.append_nil]
        exact h.asked key hkey
  | ends hkey hsystem hsame => rwa [hsame]

theorem unspent_set {i : Nat} {held' : Held O} (hheld : r'.held = r.held.set i held')
    (hnew : Unspent held')
    (hall : ∀ (j : Nat) (g : Held O), r.held[j]? = some g → Unspent g) :
    ∀ (j : Nat) (g : Held O), r'.held[j]? = some g → Unspent g := by
  intro j g hg
  rw [hheld] at hg
  rcases getElem?_set_cases hg with ⟨-, rfl⟩ | ⟨-, hold⟩
  · exact hnew
  · exact hall j g hold

theorem unspent_step {move : Move O T} (h : Inv op r) (hpermits : r.permits op move = true)
    (hcond : Streaming op r move) (hok : r.exec op move = .ok r')
    (hall : ∀ (j : Nat) (g : Held O), r.held[j]? = some g → Unspent g) :
    ∀ (j : Nat) (g : Held O), r'.held[j]? = some g → Unspent g := by
  obtain ⟨hcalm, htakes⟩ := hcond
  cases move with
  | task move =>
      obtain rfl := Except.ok.inj hok
      exact hall
  | create value =>
      obtain ⟨-, -, -, owner, hheld⟩ := h.create hpermits hok
      intro j g hg
      rw [hheld] at hg
      rcases Nat.lt_or_ge j r.held.length with hlt | hge
      · rw [List.getElem?_append_left hlt] at hg
        exact hall j g hg
      · rw [List.getElem?_append_right hge] at hg
        obtain rfl := List.mem_singleton.mp (List.mem_of_getElem? hg)
        exact ⟨fun _ _ => rfl, fun key hkey => by simp [Held.new, Submission.new, Held.key] at hkey⟩
  | poll i slot =>
      obtain ⟨⟨held, held', hget, -, hdropped, hspec, hheld, -⟩, -⟩ := h.poll hpermits hcalm hok
      refine unspent_set hheld (hspec.unspent (hall i held hget) hdropped fun _ key hkey => ?_)
        hall
      simpa [takesLast, hget, hkey] using htakes
  | pollNext i slot =>
      obtain ⟨⟨held, held', hget, -, hdropped, hspec, hheld, -⟩, -⟩ :=
        h.pollNext hpermits hcalm hok
      exact unspent_set hheld (hspec.unspent (hall i held hget) hdropped (by simp)) hall
  | drop i =>
      obtain ⟨⟨held, held', hget, -, -, -, hheld, -, hdropped, -⟩, -⟩ := h.drop hpermits hcalm hok
      refine unspent_set hheld ⟨fun hlive => ?_, fun key hkey => ?_⟩ hall
      · simp [hdropped] at hlive
      · simp [Held.key_of_dropped hdropped] at hkey
  | submitDetached =>
      obtain ⟨-, -, hheld, -⟩ := h.submitDetached hpermits hcalm hok
      rwa [hheld]
  | enter =>
      obtain ⟨-, -, hheld, -⟩ := h.enter hpermits hcalm hok
      rwa [hheld]
  | post i result =>
      obtain ⟨-, -, hheld, -⟩ := h.post hpermits hcalm hok
      rwa [hheld]
  | handle i =>
      obtain ⟨-, hheld, -⟩ := h.handle hpermits hcalm hok
      rwa [hheld]
  | leave =>
      obtain ⟨-, -, hheld, -⟩ := h.leave hpermits hcalm hok
      rwa [hheld]

theorem unspent_of_reach (h : Reach (machine op T) (Streaming op) r) :
    Inv op r ∧ ∀ (i : Nat) (held : Held O), r.held[i]? = some held → Unspent held := by
  refine h.invariant (I := fun r => Inv op r ∧
    ∀ (i : Nat) (held : Held O), r.held[i]? = some held → Unspent held) ?_ ?_
  · intro r hinit
    refine ⟨start_inv hinit, ?_⟩
    obtain ⟨task, options, entries, occupant, rfl⟩ := hinit
    simp
  · rintro r move r' ⟨hinv, hall⟩ hpermits hcond hok
    exact ⟨hinv.step hpermits hcond.1 hok, unspent_step hinv hpermits hcond hok hall⟩

/-- Every outstanding entry of a submission has the op it was made from: in the
submission, which has used it for the entry alone, or as the cancellation that the
completion set keeps in the place of the key. -/
theorem memory_outlives_entry (h : Reach (machine op T) (Streaming op) r) {entry : Entry Request}
    (hentry : entry ∈ r.system.owed) {id : SubmissionId}
    (howner : entry.request.owner = some id) :
    ∃ (i : Nat) (held : Held O) (key : Key), r.held[i]? = some held ∧ held.id = some id ∧
      entry.userData = key.asU64 ∧
      ((held.key = some key ∧ held.uses = [.entry]) ∨
        (held.dropped = true ∧ r.system.ring.completions.mailbox key.asUsize =
          some (.cancelled (op.cancel held.submission.op)))) := by
  obtain ⟨hinv, hall⟩ := unspent_of_reach h
  obtain ⟨key, hdata, rfl, hexpects⟩ := hinv.books.keyed.submission entry hentry id howner
  cases hbox : r.system.ring.completions.mailbox key.asUsize with
  | none => simp [hbox] at hexpects
  | some box =>
      cases box with
      | live pending more =>
          obtain ⟨i, held, key', hget, hkey, hslot⟩ := hinv.holds.covered _ _ _ hbox
          obtain rfl := Key.asUsize_inj.mp hslot
          obtain ⟨-, -, -, -, hid, -⟩ := hinv.holds.live i held hget _ hkey
          exact ⟨i, held, _, hget, hid, hdata, Or.inl ⟨hkey, (hall i held hget).asked _ hkey⟩⟩
      | cancelled cancel =>
          obtain ⟨i, held, hget, hdropped, hid, rfl⟩ := hinv.holds.cancelled _ _ hbox
          exact ⟨i, held, key, hget, hid, hdata, Or.inr ⟨hdropped, hbox⟩⟩

/-- A future that drops its submission while that is outstanding. -/
theorem cancelled_nop_kept : ∃ r : Runtime Nop Nat Cancellation,
    ∃ entry ∈ r.system.owed, entry.request.owner = some 0 ∧
    ∃ (i : Nat) (held : Held Nop) (key : Key), r.held[i]? = some held ∧ held.id = some 0 ∧
      entry.userData = key.asU64 ∧
      ((held.key = some key ∧ held.uses = [.entry]) ∨
        (held.dropped = true ∧ r.system.ring.completions.mailbox key.asUsize =
          some (.cancelled (Nop.op.cancel held.submission.op)))) := by
  obtain ⟨r, hreach, htest⟩ := Reach.of_replay _ (calm_and_spec takesLast)
    reach_idleRuntime
    [.task (.spawn true), .task .run, .task .check, .task .next, .create ⟨⟩, .poll 0 0, .drop 0]
    (fun r => r.system.owed.any fun entry => entry.request.owner = some 0) rfl
  obtain ⟨entry, hentry, howner⟩ := List.any_eq_true.mp htest
  have howner := of_decide_eq_true howner
  exact ⟨r, entry, hentry, howner, memory_outlives_entry hreach hentry howner⟩

end Inel.Runtime
