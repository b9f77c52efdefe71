import Inel.Io.BufferSets

/-!
# What a step of a read set does

Each call of the read side in one form: what it finds, and what it leaves. Whatever
is kept over runs is kept case by case from here.
-/

namespace Inel.Io

open Inel.Reactor SlotTable Transitions

/-! ## The set -/

namespace ReadSet

theorem submit_some (choose : Chooser) (buffer : Boxed) (set : ReadSet) :
    set.submit choose ⟨some buffer⟩ =
      (⟨none⟩, { set with
        group := (set.group.put (choose.pick set.group.buffers) buffer).2,
        provided := set.provided ++ [(.ofNat (choose.pick set.group.buffers), buffer)] }) := rfl

theorem group_run (accepted : Bool) (set : ReadSet) : (set.run accepted).group = set.group := by
  unfold run
  split
  · rfl
  · cases accepted <;> rfl

/-- What recycling keeps is kept by each round. -/
theorem recycle_rule {I : ReadSet → Prop} {set : ReadSet} (choose : Chooser)
    (hround : ∀ set buffer cancelled, I set → set.group.cancelled = buffer :: cancelled →
      I ({ set with group := { set.group with cancelled := cancelled } }.insert choose buffer))
    (h : I set) : I (set.recycle choose) := by
  have hloop : ∀ n, ∀ set, I set → I (recycleUpTo choose n set) := by
    intro n
    induction n with
    | zero => exact fun _ h => h
    | succ n ih =>
        intro set h
        cases hcancelled : set.group.cancelled with
        | nil => simpa [recycleUpTo, ReadBufferGroup.getCancelled, hcancelled] using h
        | cons buffer cancelled =>
            simp only [recycleUpTo, ReadBufferGroup.getCancelled, hcancelled]
            exact ih _ (hround set buffer cancelled h hcancelled)
  exact hloop _ set h

end ReadSet

/-! ## Readers -/

/-- A buffer that is there goes back to the set. -/
def ReadSet.giveBack (choose : Chooser) (set : ReadSet) : Option Boxed → ReadSet
  | some buffer => set.insert choose buffer
  | none => set

def GroupReader.answered (future : ReadFuture) : ReadAnswer (Option Boxed) → GroupReader
  | .pending => .pending future
  | .done buffer (.ok filled) => .ready ⟨buffer, ⟨0, filled⟩⟩
  | .done buffer (.error _) => .ready ⟨buffer, ⟨0, 0⟩⟩

/-- A fill polls the read, leaves what is unread alone, or starts a read with the
buffer given back. -/
inductive FillStep (choose : Chooser) (set : ReadSet) : GroupReader → ReadSet → GroupReader → Prop
  | polled {future : ReadFuture} {answer : ReadAnswer (Option Boxed)} {set' : ReadSet}
      (h : future.poll set = .ok (answer, set')) :
      FillStep choose set (.pending future) set' (.answered future answer)
  | kept {view : View (Option Boxed) Range} (h : view.range.isEmpty = false) :
      FillStep choose set (.ready view) set (.ready view)
  | started {view : View (Option Boxed) Range} (h : view.range.isEmpty = true) :
      FillStep choose set (.ready view) ((set.giveBack choose view.inner).recycle choose)
        (.pending .inFlight)

/-- A consumption that leaves nothing unread gives the buffer back. -/
inductive ConsumeStep (choose : Chooser) (amt : Nat) (set : ReadSet) :
    GroupReader → ReadSet → GroupReader → Prop
  | spent {view : View (Option Boxed) Range} (h : (view.consume amt).range.isEmpty = true) :
      ConsumeStep choose amt set (.ready view) (set.giveBack choose view.inner)
        (.ready { view.consume amt with inner := none })
  | unread {view : View (Option Boxed) Range} (h : (view.consume amt).range.isEmpty = false) :
      ConsumeStep choose amt set (.ready view) set (.ready (view.consume amt))
  | busy {other : GroupReader} (h : ∀ view, other ≠ .ready view) :
      ConsumeStep choose amt set other set other

namespace ReadSide

variable {choose : Chooser} {side side' : ReadSide} {i : Nat} {reader : GroupReader}

theorem answers_of_poll {future : ReadFuture} {set set' : ReadSet}
    {answer : ReadAnswer (Option Boxed)} (h : future.poll set = .ok (answer, set')) :
    answers answer future = answer := by
  cases future with
  | arrived got => rfl
  | inFlight =>
      obtain ⟨rfl, -⟩ := Prod.mk.inj (Except.ok.inj h)
      rfl
  | posted got =>
      obtain ⟨rfl, -⟩ := Prod.mk.inj (Except.ok.inj h)
      rfl

theorem fill_step (h : side.fill choose i reader = .ok side') :
    ∃ set' reader', FillStep choose side.set reader set' reader' ∧
      side' = { side with set := set', readers := side.readers.set i reader' } := by
  obtain ⟨polled, hpoll, hrest⟩ := bind_eq_ok h
  obtain ⟨filled, hfill, hret⟩ := bind_eq_ok hrest
  refine ⟨filled.2.shared, filled.2.state, ?_, (Except.ok.inj hret).symm⟩
  cases reader with
  | empty => simp [BufReaderInner.pollFill] at hfill
  | pending future =>
      have hanswer := answers_of_poll hpoll
      have hstep : FillStep choose side.set (.pending future) polled.2
          (.answered future polled.1) := .polled hpoll
      rw [← Except.ok.inj hfill, BufReaderInner.pollFuture, hanswer]
      cases hgot : polled.1 with
      | pending => rwa [hgot] at hstep
      | done buffer result =>
          rw [hgot] at hstep
          cases result with
          | ok filled => exact hstep
          | error err => exact hstep
  | ready view =>
      obtain ⟨hpending, hset⟩ := Prod.mk.inj (Except.ok.inj hpoll)
      cases hempty : view.range.isEmpty with
      | false =>
          simp only [BufReaderInner.pollFill, hempty, Bool.false_eq_true, if_false] at hfill
          rw [← Except.ok.inj hfill, ← hset]
          exact .kept hempty
      | true =>
          simp only [BufReaderInner.pollFill, hempty, if_true] at hfill
          have hstarted : FillStep choose side.set (.ready view)
              ((side.set.giveBack choose view.inner).recycle choose) (.pending .inFlight) :=
            .started hempty
          rw [← Except.ok.inj hfill, ← hset]
          cases hinner : view.inner with
          | none => rwa [hinner] at hstarted
          | some buffer => rwa [hinner] at hstarted

theorem consume_step (side : ReadSide) (choose : Chooser) (i amt : Nat) (reader : GroupReader) :
    ∃ set' reader', ConsumeStep choose amt side.set reader set' reader' ∧
      side.consume choose i amt reader =
        { side with set := set', readers := side.readers.set i reader' } := by
  refine ⟨_, _, ?_, rfl⟩
  cases reader with
  | empty => exact .busy (by simp)
  | pending future => exact .busy (by simp)
  | ready view =>
      cases hempty : (view.consume amt).range.isEmpty with
      | false =>
          have hstep : ConsumeStep choose amt side.set (.ready view) side.set
              (.ready (view.consume amt)) := .unread hempty
          simpa [BufReaderInner.consume, readAdapter, BufReaderAdapter.group, hempty] using hstep
      | true =>
          have hstep : ConsumeStep choose amt side.set (.ready view)
              (side.set.giveBack choose view.inner)
              (.ready { view.consume amt with inner := none }) :=
            .spent hempty
          cases hinner : view.inner with
          | none =>
              rw [hinner] at hstep
              have hview : (view.consume amt).inner = none := hinner
              have hsame : { view.consume amt with inner := none } = view.consume amt := by
                rw [← hview]
              rw [hsame] at hstep
              simpa [BufReaderInner.consume, readAdapter, BufReaderAdapter.group, hempty, hview,
                ReadSet.giveBack] using hstep
          | some buffer =>
              rw [hinner] at hstep
              have hview : (view.consume amt).inner = some buffer := hinner
              simpa [BufReaderInner.consume, readAdapter, BufReaderAdapter.group, hempty, hview,
                ReadSet.giveBack] using hstep

end ReadSide

/-! ## All moves -/

/-- The buffer that a move leaves in no place. -/
def ReadSide.lost (side : ReadSide) : ReadMove → Option Boxed
  | .dropProvide i => side.provides[i]?.bind ProvideBuffer.buffer
  | .dropReader i => side.readers[i]?.bind GroupReader.buffer?
  | _ => none

/-- A move that permits leaves and what it found. -/
inductive ReadStep (side : ReadSide) (user : List Boxed) :
    ReadMove → ReadSide → List Boxed → Prop
  /-- There is nothing to do. -/
  | idle {move : ReadMove} (h : side.lost move = none) : ReadStep side user move side user
  | insert {choose : Chooser} {i : Nat} {buffer : Boxed} (h : user[i]? = some buffer) :
      ReadStep side user (.insert choose i) { side with set := side.set.insert choose buffer }
        (user.eraseIdx i)
  | recycle {choose : Chooser} :
      ReadStep side user (.recycle choose) { side with set := side.set.recycle choose } user
  | provide {i : Nat} {buffer : Boxed} (h : user[i]? = some buffer) :
      ReadStep side user (.provide i) { side with provides := side.provides ++ [.new buffer] }
        (user.eraseIdx i)
  | pollProvide {choose : Chooser} {i : Nat} {provide : ProvideBuffer}
      (h : side.provides[i]? = some provide) :
      ReadStep side user (.pollProvide choose i)
        { side with
          set := (side.set.submit choose provide).2,
          provides := side.provides.set i (side.set.submit choose provide).1 } user
  | dropProvide {i : Nat} {provide : ProvideBuffer} (h : side.provides[i]? = some provide) :
      ReadStep side user (.dropProvide i) { side with provides := side.provides.eraseIdx i } user
  | read {choose : Chooser} :
      ReadStep side user (.read choose)
        { side with set := side.set.recycle choose, reads := side.reads ++ [.inFlight] } user
  | pollRead {choose : Chooser} {i : Nat} {answer : Answer} {buffer : Option Boxed}
      {result : Except OsError Nat} {group : ReadBufferGroup Boxed} {side' : ReadSide}
      {user' : List Boxed} (h : side.reads[i]? = some (.arrived answer))
      (hresult : ReadGroup.result side.set.group answer.res = .ok ((buffer, result), group))
      (hfinish : ReadSide.finishRead choose
        { side with set := { side.set with group := group }, reads := side.reads.eraseIdx i }
        user buffer result = .ok (side', user')) :
      ReadStep side user (.pollRead choose i) side' user'
  | dropRead {i : Nat} {future : ReadFuture} {side' : ReadSide}
      (h : side.reads[i]? = some future)
      (habandon : ReadSide.abandon { side with reads := side.reads.eraseIdx i } future =
        .ok side') :
      ReadStep side user (.dropRead i) side' user
  | supplyTo :
      ReadStep side user .supplyTo
        { side with readers := side.readers ++ [.ready ⟨none, ⟨0, 0⟩⟩] } user
  | fill {choose : Chooser} {i : Nat} {reader reader' : GroupReader} {set' : ReadSet}
      (h : side.readers[i]? = some reader) (hstep : FillStep choose side.set reader set' reader') :
      ReadStep side user (.fill choose i)
        { side with set := set', readers := side.readers.set i reader' } user
  | consume {choose : Chooser} {i amt : Nat} {reader reader' : GroupReader} {set' : ReadSet}
      (h : side.readers[i]? = some reader)
      (hstep : ConsumeStep choose amt side.set reader set' reader') :
      ReadStep side user (.consume choose i amt)
        { side with set := set', readers := side.readers.set i reader' } user
  | dropReader {i : Nat} {reader : GroupReader} {side' : ReadSide}
      (h : side.readers[i]? = some reader) (hdrop : side.dropReader i reader = .ok side') :
      ReadStep side user (.dropReader i) side' user
  | run {accepted : Bool} :
      ReadStep side user (.run accepted) { side with set := side.set.run accepted } user
  | post {who : Reading} {answer : Answer} (h : side.future? who = some .inFlight)
      (hfilled : ∀ entry, answer.filled = some entry → entry ∈ side.set.held) :
      ReadStep side user (.post who answer) (side.post who answer) user
  | handle {who : Reading} {answer : Answer} {side' : ReadSide}
      (h : side.future? who = some (.posted answer))
      (hhandle : side.handle who answer = .ok side') :
      ReadStep side user (.handle who) side' user

namespace ReadSide

variable {side side' : ReadSide} {user user' : List Boxed}

theorem idle_of_ok {move : ReadMove} (hlost : side.lost move = none)
    (h : (.ok (side, user) : Except Panic (ReadSide × List Boxed)) = .ok (side', user')) :
    ReadStep side user move side' user' := by
  obtain ⟨rfl, rfl⟩ := Prod.mk.inj (Except.ok.inj h)
  exact .idle hlost

theorem pollRead_step {choose : Chooser} {i : Nat} {future : ReadFuture}
    (hread : side.reads[i]? = some future)
    (h : side.pollRead choose user i future = .ok (side', user')) :
    ReadStep side user (.pollRead choose i) side' user' := by
  obtain ⟨polled, hpoll, hrest⟩ := bind_eq_ok h
  cases future with
  | arrived answer =>
      obtain ⟨taken, hresult, hret⟩ := bind_eq_ok hpoll
      obtain rfl := Except.ok.inj hret
      exact .pollRead hread hresult hrest
  | inFlight =>
      obtain rfl := Except.ok.inj hpoll
      exact idle_of_ok rfl hrest
  | posted answer =>
      obtain rfl := Except.ok.inj hpoll
      exact idle_of_ok rfl hrest

theorem exec_step {move : ReadMove} (hpermits : side.permits move = true)
    (h : side.exec user move = .ok (side', user')) : ReadStep side user move side' user' := by
  cases move with
  | insert choose i =>
      cases huser : user[i]? with
      | none =>
          simp only [exec, huser] at h
          exact idle_of_ok rfl h
      | some buffer =>
          simp only [exec, huser] at h
          obtain ⟨rfl, rfl⟩ := Prod.mk.inj (Except.ok.inj h)
          exact .insert huser
  | recycle choose =>
      obtain ⟨rfl, rfl⟩ := Prod.mk.inj (Except.ok.inj h)
      exact .recycle
  | provide i =>
      cases huser : user[i]? with
      | none =>
          simp only [exec, huser] at h
          exact idle_of_ok rfl h
      | some buffer =>
          simp only [exec, huser] at h
          obtain ⟨rfl, rfl⟩ := Prod.mk.inj (Except.ok.inj h)
          exact .provide huser
  | pollProvide choose i =>
      cases hprovide : side.provides[i]? with
      | none =>
          simp only [exec, hprovide] at h
          exact idle_of_ok rfl h
      | some provide =>
          simp only [exec, hprovide] at h
          obtain ⟨rfl, rfl⟩ := Prod.mk.inj (Except.ok.inj h)
          exact .pollProvide hprovide
  | dropProvide i =>
      obtain ⟨rfl, rfl⟩ := Prod.mk.inj (Except.ok.inj h)
      cases hprovide : side.provides[i]? with
      | none =>
          rw [List.eraseIdx_of_length_le (List.getElem?_eq_none_iff.mp hprovide)]
          exact .idle (by simp [lost, hprovide])
      | some provide => exact .dropProvide hprovide
  | read choose =>
      obtain ⟨rfl, rfl⟩ := Prod.mk.inj (Except.ok.inj h)
      exact .read
  | pollRead choose i =>
      cases hread : side.reads[i]? with
      | none =>
          simp only [exec, hread] at h
          exact idle_of_ok rfl h
      | some future =>
          simp only [exec, hread] at h
          exact pollRead_step hread h
  | dropRead i =>
      cases hread : side.reads[i]? with
      | none =>
          simp only [exec, hread] at h
          exact idle_of_ok rfl h
      | some future =>
          simp only [exec, hread] at h
          obtain ⟨left, habandon, hret⟩ := bind_eq_ok h
          obtain ⟨rfl, rfl⟩ := Prod.mk.inj (Except.ok.inj hret)
          exact .dropRead hread habandon
  | supplyTo =>
      obtain ⟨rfl, rfl⟩ := Prod.mk.inj (Except.ok.inj h)
      exact .supplyTo
  | fill choose i =>
      cases hreader : side.readers[i]? with
      | none =>
          simp only [exec, hreader] at h
          exact idle_of_ok rfl h
      | some reader =>
          simp only [exec, hreader] at h
          obtain ⟨left, hfill, hret⟩ := bind_eq_ok h
          obtain ⟨rfl, rfl⟩ := Prod.mk.inj (Except.ok.inj hret)
          obtain ⟨set', reader', hstep, rfl⟩ := fill_step hfill
          exact .fill hreader hstep
  | consume choose i amt =>
      cases hreader : side.readers[i]? with
      | none =>
          simp only [exec, hreader] at h
          exact idle_of_ok rfl h
      | some reader =>
          simp only [exec, hreader] at h
          obtain ⟨rfl, rfl⟩ := Prod.mk.inj (Except.ok.inj h)
          obtain ⟨set', reader', hstep, hconsume⟩ := consume_step side choose i amt reader
          rw [hconsume]
          exact .consume hreader hstep
  | dropReader i =>
      cases hreader : side.readers[i]? with
      | none =>
          simp only [exec, hreader] at h
          exact idle_of_ok (by simp [lost, hreader]) h
      | some reader =>
          simp only [exec, hreader] at h
          obtain ⟨left, hdrop, hret⟩ := bind_eq_ok h
          obtain ⟨rfl, rfl⟩ := Prod.mk.inj (Except.ok.inj hret)
          exact .dropReader hreader hdrop
  | run accepted =>
      obtain ⟨rfl, rfl⟩ := Prod.mk.inj (Except.ok.inj h)
      exact .run
  | post who answer =>
      obtain ⟨rfl, rfl⟩ := Prod.mk.inj (Except.ok.inj h)
      simp only [permits, Bool.and_eq_true, beq_iff_eq] at hpermits
      refine .post hpermits.1 fun entry hentry => ?_
      simpa [hentry] using hpermits.2
  | handle who =>
      simp only [exec] at h
      split at h
      · next answer hwho =>
          obtain ⟨left, hhandle, hret⟩ := bind_eq_ok h
          obtain ⟨rfl, rfl⟩ := Prod.mk.inj (Except.ok.inj hret)
          exact .handle hwho hhandle
      · exact idle_of_ok rfl h

end ReadSide

end Inel.Io
