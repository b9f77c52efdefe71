import Inel.Io.WriterRuns

/-!
# Writers with any buffers and any sink

A write may take part of what it was given, and a buffer may have no room. A call
that returns all the same has kept every byte, so that what was accepted is what
was delivered and what is held.
-/

namespace Inel.Io

open Inel.Reactor (Panic OsError)
open Transitions

/-- What is written to a buffer stays as the adapter prepares it. -/
structure BufWriterAdapter.Faithful {B P : Type} [Bytes B]
    (adapter : BufWriterAdapter (List UInt8) B P) : Prop where
  wrote : ∀ sink view n, adapter.wrote sink view n = sink ++ view.stableSlice.take n
  preWrite : ∀ buffer shared, ∀ pos ≤ size buffer,
    pos ≤ size (adapter.preWrite buffer shared).1 ∧
      (stableSlice (adapter.preWrite buffer shared).1).take pos = (stableSlice buffer).take pos

theorem plain_faithful {B : Type} [Bytes B] :
    (BufWriterAdapter.plain (takeBytes (B := B))).Faithful where
  wrote _ _ _ := rfl
  preWrite _ _ _ hpos := ⟨hpos, rfl⟩

theorem group_faithful : groupAdapter.Faithful where
  wrote _ _ _ := rfl
  preWrite buffer set pos hpos := by
    cases buffer with
    | some box => exact ⟨hpos, rfl⟩
    | none =>
        obtain rfl : pos = 0 := Nat.le_zero.mp hpos
        exact ⟨Nat.zero_le _, rfl⟩

namespace BufWriterInner

variable {B P : Type} [Bytes B] {adapter : BufWriterAdapter (List UInt8) B P}
  {w w' : BufWriterInner (List UInt8) B P} {answer : Poll Nat}

/-- Between calls a view is within its buffer, and one in flight shows something. -/
structure Sound (w : BufWriterInner (List UInt8) B P) : Prop where
  view : ∃ view, w.state.view? = some view ∧ view.range.stop ≤ size view.inner
  pending : ∀ view, w.state = .pending view → 0 < view.range.stop

def isIdle (w : BufWriterInner (List UInt8) B P) : Bool :=
  match w.state with
  | .ready view => view.range.stop == 0
  | _ => false

theorem Sound.ready {view : View B RangeTo} (hstate : w.state = .ready view)
    (hstop : view.range.stop ≤ size view.inner) : w.Sound where
  view := ⟨view, by rw [hstate]; rfl, hstop⟩
  pending := by simp [hstate]

theorem Sound.of_pending {view : View B RangeTo} (hstate : w.state = .pending view)
    (hstop : view.range.stop ≤ size view.inner) (hpos : 0 < view.range.stop) : w.Sound where
  view := ⟨view, by rw [hstate]; rfl, hstop⟩
  pending := by
    intro view' hview'
    rw [hstate] at hview'
    cases hview'
    exact hpos

theorem Sound.stop_le {view : View B RangeTo} (h : w.Sound)
    (hview : w.state.view? = some view) : view.range.stop ≤ size view.inner := by
  obtain ⟨view', hview', hstop⟩ := h.view
  obtain rfl := Option.some.inj (hview'.symm.trans hview)
  exact hstop

theorem Sound.held_length {view : View B RangeTo} (h : w.Sound)
    (hview : w.state.view? = some view) : w.held.length = view.range.stop := by
  have hstop := h.stop_le hview
  rw [held_of_view hview, View.stableSlice_rangeTo, List.length_take, length_stableSlice]
  omega

theorem Sound.isIdle_iff (h : w.Sound) : w.isIdle = true ↔ w.held = [] := by
  obtain ⟨view, hview, -⟩ := h.view
  have hlength := h.held_length hview
  cases hstate : w.state with
  | empty => simp [hstate, BufWriterState.view?] at hview
  | pending view' =>
      have hpos := h.pending view' hstate
      obtain rfl : view' = view := by simpa [hstate, BufWriterState.view?] using hview
      constructor
      · intro hidle
        simp [isIdle, hstate] at hidle
      · intro hheld
        rw [hheld] at hlength
        simp only [List.length_nil] at hlength
        omega
  | ready view' =>
      obtain rfl : view' = view := by simpa [hstate, BufWriterState.view?] using hview
      simp only [isIdle, hstate, beq_iff_eq]
      rw [← hlength, List.length_eq_zero_iff]

/-- What a call that returns does: it keeps what went in before, takes `bytes`, and
takes nothing back from the sink. -/
structure Took (w w' : BufWriterInner (List UInt8) B P) (bytes : List UInt8) : Prop where
  sound : w'.Sound
  total : w'.total = w.total ++ bytes
  sink : w.sink <+: w'.sink

theorem Took.trans {w₁ : BufWriterInner (List UInt8) B P} {bytes bytes' : List UInt8}
    (h : Took w w₁ bytes) (h' : Took w₁ w' bytes') : Took w w' (bytes ++ bytes') where
  sound := h'.sound
  total := by rw [h'.total, h.total, List.append_assoc]
  sink := h.sink.trans h'.sink

theorem Took.refl (h : w.Sound) : Took w w [] where
  sound := h
  total := (List.append_nil _).symm
  sink := List.prefix_refl _

theorem pollFuture_took (hadapter : adapter.Faithful) {view : View B RangeTo}
    (hview : w.state.view? = some view) (hstop : view.range.stop ≤ size view.inner)
    (hpos : 0 < view.range.stop) {poll : Poll Unit}
    (hok : w.pollFuture adapter view answer = .ok (poll, w')) :
    Took w w' [] ∧ (poll = .ready (.ok ()) → w'.isIdle = true) := by
  have hnil : ∀ w₁ : BufWriterInner (List UInt8) B P, w₁.total = w.total →
      w₁.total = w.total ++ [] := fun w₁ htotal => htotal.trans (List.append_nil _).symm
  rcases pollFuture_eq_ok hok with ⟨hpoll, rfl | rfl⟩ | ⟨-, rfl⟩
  · exact ⟨⟨.of_pending rfl hstop hpos, hnil _ (total_of_view hview rfl rfl),
      List.prefix_refl _⟩, fun heq => absurd heq hpoll⟩
  · exact ⟨⟨.ready rfl hstop, hnil _ (total_of_view hview rfl rfl), List.prefix_refl _⟩,
      fun heq => absurd heq hpoll⟩
  · refine ⟨⟨.ready rfl (Nat.zero_le _), hnil _ (flushed_total hadapter.wrote hview), ?_⟩,
      fun _ => rfl⟩
    change w.sink <+: adapter.wrote w.sink view view.range.stop
    rw [hadapter.wrote]
    exact List.prefix_append _ _

theorem pollFlush_took (hadapter : adapter.Faithful) (h : w.Sound) {poll : Poll Unit}
    (hok : w.pollFlush adapter answer = .ok (poll, w')) :
    Took w w' [] ∧ (poll = .ready (.ok ()) → w'.isIdle = true) := by
  rcases pollFlush_eq_ok hok with ⟨view, hstate, hzero, -, rfl⟩ | ⟨view, hstate, hfuture⟩
  · exact ⟨.refl h, fun _ => by simp [isIdle, hstate, hzero]⟩
  · rcases hstate with hstate | ⟨hstate, hpos⟩
    · have hview : w.state.view? = some view := by rw [hstate]; rfl
      exact pollFuture_took hadapter hview (h.stop_le hview) (h.pending view hstate) hfuture
    · have hview : w.state.view? = some view := by rw [hstate]; rfl
      exact pollFuture_took hadapter hview (h.stop_le hview) hpos hfuture

theorem prepared_took (hadapter : adapter.Faithful) (h : w.Sound) {view : View B RangeTo}
    (hstate : w.state = .ready view) : Took w (w.prepared adapter view) [] := by
  have hview : w.state.view? = some view := by rw [hstate]; rfl
  obtain ⟨hstop, hslice⟩ := hadapter.preWrite view.inner w.shared _ (h.stop_le hview)
  refine ⟨.ready rfl hstop, ?_, List.prefix_refl _⟩
  rw [total, total, held_of_view hview, held_of_view rfl, View.stableSlice_rangeTo,
    View.stableSlice_rangeTo, List.append_nil]
  dsimp only [preparedView]
  rw [hslice]
  rfl

theorem pollFlushAndWrite_took (hadapter : adapter.Faithful) (h : w.Sound) (data : List UInt8)
    {write : BufWriterInner (List UInt8) B P →
      Except Panic (Poll Nat × BufWriterInner (List UInt8) B P)}
    (hwrite : ∀ w₁ poll w₂, w₁.Sound → write w₁ = .ok (poll, w₂) →
      Took w₁ w₂ (accepted data poll)) {poll : Poll Nat}
    (hok : w.pollFlushAndWrite adapter answer write = .ok (poll, w')) :
    Took w w' (accepted data poll) := by
  obtain ⟨done, w₁, hflush, hrest⟩ := pollFlushAndWrite_eq_ok hok
  have htook := (pollFlush_took hadapter h hflush).1
  rcases hrest with ⟨hpoll, rfl⟩ | ⟨-, hrest⟩
  · have hnone : accepted data poll = [] := by
      unfold accepted
      split
      · next n => exact absurd rfl (hpoll n)
      · rfl
    rw [hnone]
    exact htook
  · exact htook.trans (hwrite _ _ _ htook.sound hrest)

/-- A call that returns took what it reports, however deep it went. -/
theorem pollWrite_took (hadapter : adapter.Faithful) {data : List UInt8} {depth : Nat} :
    ∀ {w w' : BufWriterInner (List UInt8) B P} {poll : Poll Nat}, w.Sound →
      pollWrite adapter data answer depth w = .ok (poll, w') →
      Took w w' (accepted data poll) := by
  induction depth with
  | zero =>
      intro w w' poll _ hok
      simp [pollWrite] at hok
  | succ depth ih =>
      intro w w' poll h hok
      cases hstate : w.state with
      | empty => simp [pollWrite, hstate] at hok
      | pending view =>
          simp only [pollWrite, hstate] at hok
          exact pollFlushAndWrite_took hadapter h data (fun _ _ _ hsound => ih hsound) hok
      | ready view =>
          have hprepared := prepared_took hadapter h hstate
          simp only [pollWrite, hstate] at hok
          split at hok
          · exact hprepared.trans (pollFlushAndWrite_took hadapter hprepared.sound data
              (fun _ _ _ hsound => ih hsound) hok)
          · obtain ⟨filled, hfill, hrest⟩ := bind_eq_ok hok
            obtain ⟨rfl, rfl⟩ := Prod.mk.inj (Except.ok.inj hrest)
            obtain ⟨view', hfill', -, hstop', hslice⟩ :=
              View.fill_take data (hprepared.sound.stop_le rfl)
            obtain rfl := Except.ok.inj (hfill'.symm.trans hfill)
            refine hprepared.trans ⟨.ready rfl hstop', ?_, List.prefix_refl _⟩
            rw [total, total, held_of_view (w := w.prepared adapter view) rfl]
            change w.sink ++ view'.stableSlice = w.sink ++ _ ++ _
            rw [hslice, List.append_assoc]

end BufWriterInner

/-! ## The three kinds -/

namespace Writer

variable {writer writer' : Writer} {answer : Poll Nat}

def Sound : Writer → Prop
  | .stable w => w.Sound
  | .fixed w => w.Sound
  | .group w => w.Sound

def isIdle : Writer → Bool
  | .stable w => w.isIdle
  | .fixed w => w.isIdle
  | .group w => w.isIdle

structure Took (writer writer' : Writer) (bytes : List UInt8) : Prop where
  sound : writer'.Sound
  total : writer'.total = writer.total ++ bytes
  delivered : writer.delivered <+: writer'.delivered

theorem Took.refl (h : writer.Sound) : writer.Took writer [] where
  sound := h
  total := (List.append_nil _).symm
  delivered := List.prefix_refl _

theorem Sound.isIdle_iff (h : writer.Sound) : writer.isIdle = true ↔ writer.held = [] := by
  cases writer with
  | stable w => exact BufWriterInner.Sound.isIdle_iff h
  | fixed w => exact BufWriterInner.Sound.isIdle_iff h
  | group w => exact BufWriterInner.Sound.isIdle_iff h

theorem call_took {α : Type} {f : α → List UInt8} {value : α}
    {run : ∀ {B P : Type} [Bytes B], BufWriterAdapter (List UInt8) B P →
      BufWriterInner (List UInt8) B P → Except Panic (α × BufWriterInner (List UInt8) B P)}
    (hrun : ∀ {B P : Type} [Bytes B] {adapter : BufWriterAdapter (List UInt8) B P}
      {w w' : BufWriterInner (List UInt8) B P} {value : α}, adapter.Faithful → w.Sound →
      run adapter w = .ok (value, w') → w.Took w' (f value))
    (h : writer.Sound) (hok : writer.call run = .ok (value, writer')) :
    writer.Took writer' (f value) := by
  cases writer with
  | stable w =>
      obtain ⟨ran, hran, hret⟩ := bind_eq_ok hok
      obtain ⟨rfl, rfl⟩ := Prod.mk.inj (Except.ok.inj hret)
      have htook := hrun plain_faithful h hran
      exact ⟨htook.sound, htook.total, htook.sink⟩
  | fixed w =>
      obtain ⟨ran, hran, hret⟩ := bind_eq_ok hok
      obtain ⟨rfl, rfl⟩ := Prod.mk.inj (Except.ok.inj hret)
      have htook := hrun plain_faithful h hran
      exact ⟨htook.sound, htook.total, htook.sink⟩
  | group w =>
      obtain ⟨ran, hran, hret⟩ := bind_eq_ok hok
      obtain ⟨rfl, rfl⟩ := Prod.mk.inj (Except.ok.inj hret)
      have htook := hrun group_faithful h hran
      exact ⟨htook.sound, htook.total, htook.sink⟩

theorem pollWrite_took {depth : Nat} {data : List UInt8} {poll : Poll Nat} (h : writer.Sound)
    (hok : writer.pollWrite depth data answer = .ok (poll, writer')) :
    writer.Took writer' (BufWriterInner.accepted data poll) :=
  call_took (fun hadapter hsound hran => BufWriterInner.pollWrite_took hadapter hsound hran) h hok

theorem pollFlush_took {poll : Poll Unit} (h : writer.Sound)
    (hok : writer.pollFlush answer = .ok (poll, writer')) : writer.Took writer' [] :=
  call_took (f := fun _ => [])
    (fun hadapter hsound hran => (BufWriterInner.pollFlush_took hadapter hsound hran).1) h hok

theorem fix_took {slot : Option UInt32} (h : writer.Sound) (hok : writer.fix slot = .ok writer') :
    writer.Took writer' [] := by
  rcases fix_eq_ok hok with rfl | ⟨w, view, number, rfl, hstate, rfl⟩
  · exact .refl h
  · have hstop := BufWriterInner.Sound.stop_le h (by rw [hstate]; rfl)
    refine ⟨.ready rfl hstop, ?_, List.prefix_refl _⟩
    rw [fixed_total hstate, List.append_nil]

end Writer

end Inel.Io
