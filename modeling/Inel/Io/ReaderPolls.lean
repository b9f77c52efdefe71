import Inel.Io.BufReader

/-!
# What polling a reader comes to

A poll hands on what is unread, or polls a read. So bytes reach a reader through the
read that it has in flight or would make next, when it has no others.
-/

namespace Inel.Io

open Inel.Reactor (Panic OsError)
open Transitions

/-- What polling for bytes does: it passes on what is unread, or polls a read. -/
inductive Polls {B F P : Type} [Bytes B] (adapter : BufReaderAdapter (List UInt8) B F P)
    (answer : F → ReadAnswer B) (r r' : BufReaderInner (List UInt8) B F P) :
    Poll (List UInt8) → Prop
  | unread {bytes : List UInt8} (hsource : r'.source = r.source) (hne : bytes ≠ []) :
      Polls adapter answer r r' (.ready (.ok bytes))
  | pending {fut : F} (hfut : r.future? adapter = some fut) (hanswer : answer fut = .pending)
      (hsource : r'.source = r.source) : Polls adapter answer r r' .pending
  | failed {fut : F} {buffer : B} {err : OsError} (hfut : r.future? adapter = some fut)
      (hanswer : answer fut = .done buffer (.error err)) (hsource : r'.source = r.source) :
      Polls adapter answer r r' (.ready (.error err))
  | delivered {fut : F} {buffer : B} {n : Nat} {bytes : List UInt8}
      (hfut : r.future? adapter = some fut) (hanswer : answer fut = .done buffer (.ok n))
      (hunread : r.unread = []) (hsource : r'.source = r.source ++ (stableSlice buffer).take n)
      (hnil : bytes = [] → (stableSlice buffer).take n = []) :
      Polls adapter answer r r' (.ready (.ok bytes))

variable {B F P : Type} [Bytes B] {adapter : BufReaderAdapter (List UInt8) B F P}
  {answer : F → ReadAnswer B} {r r' : BufReaderInner (List UInt8) B F P}

omit [Bytes B] in
theorem consume_source (amt : Nat) : (r.consume adapter amt).source = r.source := by
  unfold BufReaderInner.consume
  split <;> rfl

theorem unread_ne_nil {view : View B Range} (h : BufReaderInner.Within view)
    (hrange : view.range.isEmpty = false) : view.stableSlice ≠ [] := by
  have hstop := h.inside hrange
  have hlength : (stableSlice view.inner).length = size view.inner := length_stableSlice _
  simp only [Range.isEmpty, Bool.not_eq_false', decide_eq_true_eq] at hrange
  rw [← List.length_pos_iff, View.stableSlice_range, List.length_drop, List.length_take]
  omega

theorem take_min_ne_nil {slice : List UInt8} {len : Nat} (hlen : 0 < len) (hslice : slice ≠ []) :
    slice.take (min slice.length len) ≠ [] := by
  have hpos := List.length_pos_iff.mpr hslice
  rw [← List.length_pos_iff, List.length_take]
  omega

theorem polls_of_pollFuture (hadapter : adapter.Lawful) {fut : F}
    (hfut : r.future? adapter = some fut) (start : BufReaderInner (List UInt8) B F P)
    (hstart : start.source = r.source) (hunread : r.unread = []) {poll : Poll (List UInt8)}
    (hfill : r.pollFill adapter answer = .ok (start.pollFuture adapter fut answer))
    (hok : r.pollFillBuf adapter answer = .ok (poll, r')) : Polls adapter answer r r' poll := by
  simp only [BufReaderInner.pollFillBuf, hfill] at hok
  cases hanswer : answer fut with
  | pending =>
      simp only [BufReaderInner.pollFuture, hanswer] at hok
      obtain ⟨rfl, rfl⟩ := Prod.mk.inj (Except.ok.inj hok)
      exact .pending hfut hanswer hstart
  | done buffer result =>
      cases result with
      | error err =>
          simp only [BufReaderInner.pollFuture, hanswer] at hok
          obtain ⟨rfl, rfl⟩ := Prod.mk.inj (Except.ok.inj hok)
          exact .failed hfut hanswer hstart
      | ok n =>
          simp only [BufReaderInner.pollFuture, hanswer] at hok
          obtain ⟨rfl, rfl⟩ := Prod.mk.inj (Except.ok.inj hok)
          refine .delivered hfut hanswer hunread ?_ fun hnil => ?_
          · exact (hadapter.delivered _ _ _).trans (by rw [hstart])
          · have hslice : (⟨buffer, ⟨0, n⟩⟩ : View B Range).stableSlice =
                (stableSlice buffer).take n := View.stableSlice_range _
            rw [← hslice]
            exact hnil

theorem pollFillBuf_polls (hadapter : adapter.Lawful) (h : r.Inv) {poll : Poll (List UInt8)}
    (hok : r.pollFillBuf adapter answer = .ok (poll, r')) : Polls adapter answer r r' poll := by
  cases hstate : r.state with
  | empty => exact absurd hstate h.nonempty
  | pending fut =>
      exact polls_of_pollFuture hadapter (by rw [BufReaderInner.future?, hstate]) r rfl
        (by rw [BufReaderInner.unread, hstate]) (by rw [BufReaderInner.pollFill, hstate]) hok
  | ready view =>
      have hfut : r.future? adapter = some (adapter.createFuture view.inner r.shared).1 := by
        rw [BufReaderInner.future?, hstate]
      cases hrange : view.range.isEmpty with
      | true =>
          have hunread : r.unread = [] := by
            rw [BufReaderInner.unread, hstate]
            exact BufReaderInner.stableSlice_of_isEmpty hrange
          exact polls_of_pollFuture hadapter hfut
            { r with shared := (adapter.createFuture view.inner r.shared).2 } rfl hunread
            (by simp only [BufReaderInner.pollFill, hstate, hrange, if_true]) hok
      | false =>
          have hfill : r.pollFill adapter answer = .ok (.ready (.ok ()), r) := by
            simp [BufReaderInner.pollFill, hstate, hrange]
          have hbuffer : r.buffer = .ok view.stableSlice := by
            rw [BufReaderInner.buffer, hstate]
          simp only [BufReaderInner.pollFillBuf, hfill, hbuffer, bind, Except.bind, pure,
            Except.pure] at hok
          obtain ⟨rfl, rfl⟩ := Prod.mk.inj (Except.ok.inj hok)
          exact .unread rfl (unread_ne_nil (h.within view hstate) hrange)

/-- A read into a destination with room is answered with nothing when a fill would be. -/
theorem pollRead_polls (hadapter : adapter.Lawful) (h : r.Inv) {len : Nat} (hlen : 0 < len)
    {poll : Poll (List UInt8)} (hok : r.pollRead adapter len answer = .ok (poll, r')) :
    Polls adapter answer r r' poll := by
  obtain ⟨⟨filled, r₁⟩, hfill, hrest⟩ := bind_eq_ok hok
  have hpolls := pollFillBuf_polls hadapter h hfill
  cases hpolls with
  | unread hsource hne =>
      obtain ⟨rfl, rfl⟩ := Prod.mk.inj (Except.ok.inj hrest)
      exact .unread ((consume_source _).trans hsource) (take_min_ne_nil hlen hne)
  | pending hfut hanswer hsource =>
      obtain ⟨rfl, rfl⟩ := Prod.mk.inj (Except.ok.inj hrest)
      exact .pending hfut hanswer hsource
  | failed hfut hanswer hsource =>
      obtain ⟨rfl, rfl⟩ := Prod.mk.inj (Except.ok.inj hrest)
      exact .failed hfut hanswer hsource
  | delivered hfut hanswer hunread hsource hnil =>
      obtain ⟨rfl, rfl⟩ := Prod.mk.inj (Except.ok.inj hrest)
      refine .delivered hfut hanswer hunread ((consume_source _).trans hsource) fun hcopied => ?_
      by_contra hne
      exact take_min_ne_nil hlen (fun hslice => hne (hnil hslice)) hcopied

/-- However long the destination is, the bytes come by a fill, and with room in it the read
is answered with nothing only if the fill is. -/
theorem pollRead_fills (hadapter : adapter.Lawful) (h : r.Inv) {len : Nat}
    {poll : Poll (List UInt8)} (hok : r.pollRead adapter len answer = .ok (poll, r')) :
    ∃ filled, Polls adapter answer r r' filled ∧
      (0 < len → poll = .ready (.ok []) → filled = .ready (.ok [])) := by
  obtain ⟨⟨filled, r₁⟩, hfill, hrest⟩ := bind_eq_ok hok
  have hpolls := pollFillBuf_polls hadapter h hfill
  refine ⟨filled, ?_, ?_⟩
  · have hsource : r'.source = r₁.source := by
      rcases filled with - | (err | slice)
      · rw [(Prod.mk.inj (Except.ok.inj hrest)).2]
      · rw [(Prod.mk.inj (Except.ok.inj hrest)).2]
      · rw [← (Prod.mk.inj (Except.ok.inj hrest)).2, consume_source]
    cases hpolls with
    | unread hfilled hne => exact .unread (hsource.trans hfilled) hne
    | pending hfut hanswer hfilled => exact .pending hfut hanswer (hsource.trans hfilled)
    | failed hfut hanswer hfilled => exact .failed hfut hanswer (hsource.trans hfilled)
    | delivered hfut hanswer hunread hfilled hnil =>
        exact .delivered hfut hanswer hunread (hsource.trans hfilled) hnil
  · rintro hlen rfl
    rcases filled with - | (err | slice)
    · cases hrest
    · cases hrest
    · obtain ⟨hcopied, -⟩ := Prod.mk.inj (Except.ok.inj hrest)
      by_contra hne
      refine take_min_ne_nil hlen (fun hslice : slice = [] => hne (by rw [hslice])) ?_
      simpa using hcopied

/-- What polling the read in flight and consuming keep, polling for a read keeps. -/
theorem pollRead_keeps {I : BufReaderInner (List UInt8) B F P → Prop} (h : I r)
    (hpoll : ∀ fut (start : BufReaderInner (List UInt8) B F P), r.future? adapter = some fut →
      start.source = r.source → I (start.pollFuture adapter fut answer).2)
    (hconsume : ∀ r amt, I r → I (r.consume adapter amt)) {len : Nat} {poll : Poll (List UInt8)}
    (hok : r.pollRead adapter len answer = .ok (poll, r')) : I r' := by
  obtain ⟨⟨filled, r₁⟩, hfillBuf, hrest⟩ := bind_eq_ok hok
  obtain ⟨⟨done, r₂⟩, hfill, hbuffer⟩ := bind_eq_ok hfillBuf
  have hfilled : I r₂ := by
    cases hstate : r.state with
    | empty => simp [BufReaderInner.pollFill, hstate] at hfill
    | pending fut =>
        rw [BufReaderInner.pollFill, hstate] at hfill
        have hkept := hpoll fut r (by rw [BufReaderInner.future?, hstate]) rfl
        rwa [Except.ok.inj hfill] at hkept
    | ready view =>
        simp only [BufReaderInner.pollFill, hstate] at hfill
        split at hfill
        · have hkept := hpoll _
            ⟨r.source, .ready view, (adapter.createFuture view.inner r.shared).2⟩
            (by rw [BufReaderInner.future?, hstate]) rfl
          rwa [Except.ok.inj hfill] at hkept
        · obtain ⟨-, rfl⟩ := Prod.mk.inj (Except.ok.inj hfill)
          exact h
  have hsame : r₁ = r₂ := by
    rcases done with - | (err | done)
    · exact (Prod.mk.inj (Except.ok.inj hbuffer)).2.symm
    · exact (Prod.mk.inj (Except.ok.inj hbuffer)).2.symm
    · obtain ⟨slice, -, hret⟩ := bind_eq_ok hbuffer
      exact (Prod.mk.inj (Except.ok.inj hret)).2.symm
  subst hsame
  rcases filled with - | (err | slice)
  · obtain ⟨-, rfl⟩ := Prod.mk.inj (Except.ok.inj hrest)
    exact hfilled
  · obtain ⟨-, rfl⟩ := Prod.mk.inj (Except.ok.inj hrest)
    exact hfilled
  · obtain ⟨-, rfl⟩ := Prod.mk.inj (Except.ok.inj hrest)
    exact hconsume _ _ hfilled

end Inel.Io
