import Inel.Base.Depth
import Inel.Io.Streams

/-!
# Polls for writing that end

A poll for writing calls itself again once it has flushed. If the buffer it is to
fill has room then, that call is the last. If the buffer has none, there is nothing
to flush either, and the calls nest for ever.
-/

namespace Inel.Io

open Inel.Reactor (Panic)
open BoundedDepth Transitions

/-! ## What a writer fills next -/

/-- Preparing a buffer twice is no more than once, and the buffer that is prepared
after a flush has the size of the one that was flushed. -/
structure BufWriterAdapter.Steady {B P : Type} [Bytes B]
    (adapter : BufWriterAdapter (List UInt8) B P) : Prop where
  prepared : ∀ buffer shared, adapter.preWrite (adapter.preWrite buffer shared).1
    (adapter.preWrite buffer shared).2 = adapter.preWrite buffer shared
  flushed : ∀ buffer shared, size (adapter.preWrite (adapter.postFlush buffer shared).1
    (adapter.postFlush buffer shared).2).1 = size (adapter.preWrite buffer shared).1

theorem plain_steady {B : Type} [Bytes B] :
    (BufWriterAdapter.plain (takeBytes (B := B))).Steady where
  prepared _ _ := rfl
  flushed _ _ := rfl

/-- The buffer that was put in last is the first to come out. -/
theorem group_steady : groupAdapter.Steady where
  prepared buffer set := by cases buffer <;> rfl
  flushed buffer set := by cases buffer <;> rfl

namespace BufWriterInner

variable {B P : Type} [Bytes B] {adapter : BufWriterAdapter (List UInt8) B P}
  {w : BufWriterInner (List UInt8) B P} {answer : Poll Nat} {data : List UInt8}

def nextSize (adapter : BufWriterAdapter (List UInt8) B P) (w : BufWriterInner (List UInt8) B P) :
    Nat :=
  match w.state.view? with
  | some view => size (adapter.preWrite view.inner w.shared).1
  | none => 0

theorem nextSize_of_view {view : View B RangeTo} (hview : w.state.view? = some view) :
    w.nextSize adapter = size (adapter.preWrite view.inner w.shared).1 := by
  rw [nextSize, hview]

theorem nextSize_prepared (hadapter : adapter.Steady) {view : View B RangeTo}
    (hstate : w.state = .ready view) :
    (w.prepared adapter view).nextSize adapter = w.nextSize adapter := by
  rw [nextSize_of_view (w := w) (by rw [hstate]; rfl), nextSize_of_view rfl]
  exact congrArg (fun ready => size ready.1) (hadapter.prepared view.inner w.shared)

theorem pollFlush_through (hadapter : adapter.Steady) {w₁ : BufWriterInner (List UInt8) B P}
    (hok : w.pollFlush adapter answer = .ok (.ready (.ok ()), w₁)) :
    w₁.nextSize adapter = w.nextSize adapter ∧
      ∃ view, w₁.state = .ready view ∧ view.range.stop = 0 := by
  rcases pollFlush_eq_ok hok with ⟨view, hstate, hzero, -, rfl⟩ | ⟨view, hstate, hfuture⟩
  · exact ⟨rfl, view, hstate, hzero⟩
  · have hview : w.state.view? = some view := by
      rcases hstate with hstate | ⟨hstate, -⟩ <;> rw [hstate] <;> rfl
    rcases pollFuture_eq_ok hfuture with ⟨hpoll, -⟩ | ⟨-, rfl⟩
    · exact absurd rfl hpoll
    · rw [nextSize_of_view hview, nextSize_of_view rfl]
      exact ⟨hadapter.flushed view.inner w.shared, _, rfl, rfl⟩

omit [Bytes B] in
theorem pollFlush_ne_overflow : w.pollFlush adapter answer ≠ .error stackOverflow := by
  have hfuture : ∀ view, w.pollFuture adapter view answer ≠ .error stackOverflow := by
    intro view hok
    unfold pollFuture at hok
    cases answer with
    | pending => simp at hok
    | ready result =>
        cases result with
        | error err => simp at hok
        | ok wrote =>
            by_cases hall : wrote = view.range.stop
            · simp [hall] at hok
            · simp [hall, stackOverflow] at hok
  unfold pollFlush
  cases hstate : w.state with
  | empty => simp [stackOverflow]
  | pending view => exact hfuture view
  | ready view =>
      by_cases hzero : view.range.stop = 0
      · simp [hzero]
      · simpa [hzero] using hfuture view

omit [Bytes B] in
/-- Writing goes on only after a flush that is through. -/
theorem pollFlushAndWrite_cases (adapter : BufWriterAdapter (List UInt8) B P)
    (w : BufWriterInner (List UInt8) B P) (answer : Poll Nat) :
    (∃ w₁, w.pollFlush adapter answer = .ok (.ready (.ok ()), w₁) ∧
      ∀ write, w.pollFlushAndWrite adapter answer write = write w₁) ∨
    ∃ result, result ≠ .error stackOverflow ∧
      ∀ write, w.pollFlushAndWrite adapter answer write = result := by
  cases hflush : w.pollFlush adapter answer with
  | error panic =>
      refine Or.inr ⟨.error panic, ?_, fun write => ?_⟩
      · rintro heq
        obtain rfl := Except.error.inj heq
        exact pollFlush_ne_overflow hflush
      · rw [pollFlushAndWrite, hflush]
        rfl
  | ok flushed =>
      obtain ⟨poll, w₁⟩ := flushed
      cases poll with
      | pending =>
          refine Or.inr ⟨.ok (.pending, w₁), by simp, fun write => ?_⟩
          rw [pollFlushAndWrite, hflush]
          rfl
      | ready result =>
          cases result with
          | error err =>
              refine Or.inr ⟨.ok (.ready (.error err), w₁), by simp, fun write => ?_⟩
              rw [pollFlushAndWrite, hflush]
              rfl
          | ok done =>
              refine Or.inl ⟨w₁, rfl, fun write => ?_⟩
              rw [pollFlushAndWrite, hflush]
              rfl

/-- One more level does not change what was reached without it. -/
theorem pollWrite_stable (depth : Nat) : ∀ w : BufWriterInner (List UInt8) B P,
    pollWrite adapter data answer depth w ≠ .error stackOverflow →
    pollWrite adapter data answer (depth + 1) w = pollWrite adapter data answer depth w := by
  induction depth with
  | zero =>
      intro w hne
      exact absurd rfl hne
  | succ depth ih =>
      intro w hne
      have hflush : ∀ w₀ : BufWriterInner (List UInt8) B P,
          w₀.pollFlushAndWrite adapter answer (pollWrite adapter data answer depth) ≠
            .error stackOverflow →
          w₀.pollFlushAndWrite adapter answer (pollWrite adapter data answer (depth + 1)) =
            w₀.pollFlushAndWrite adapter answer (pollWrite adapter data answer depth) := by
        intro w₀ hne
        rcases pollFlushAndWrite_cases adapter w₀ answer with ⟨w₁, -, hwrite⟩ | ⟨result, -, hresult⟩
        · rw [hwrite] at hne
          rw [hwrite, hwrite, ih w₁ hne]
        · rw [hresult, hresult]
      rw [pollWrite] at hne ⊢
      rw [pollWrite]
      cases hstate : w.state with
      | empty => rfl
      | pending view =>
          simp only [hstate] at hne
          exact hflush w hne
      | ready view =>
          simp only [hstate] at hne
          simp only
          split at hne
          · next hfull =>
              rw [if_pos hfull, if_pos hfull]
              exact hflush _ hne
          · next hroom => rw [if_neg hroom, if_neg hroom]

theorem pollWrite_room_ends (hadapter : adapter.Faithful) (h : w.Sound) {view : View B RangeTo}
    (hstate : w.state = .ready view) (hroom : (w.preparedView adapter view).spareCapacity ≠ 0)
    (depth : Nat) : pollWrite adapter data answer (depth + 1) w ≠ .error stackOverflow := by
  have hprepared := prepared_took hadapter h hstate
  obtain ⟨view', hfill, -⟩ := View.fill_take data (hprepared.sound.stop_le rfl)
  simp only [preparedView] at hroom hfill
  simp only [pollWrite, hstate, hroom, hfill, if_false, bind, Except.bind, pure, Except.pure]
  simp

/-- A call that may nest twice ends if there is room in the buffer that is next. -/
theorem pollWrite_ends (hadapter : adapter.Faithful) (hsteady : adapter.Steady) (h : w.Sound)
    (hroom : 0 < w.nextSize adapter) :
    pollWrite adapter data answer 2 w ≠ .error stackOverflow := by
  have hflush : ∀ w₀ : BufWriterInner (List UInt8) B P, w₀.Sound → 0 < w₀.nextSize adapter →
      w₀.pollFlushAndWrite adapter answer (pollWrite adapter data answer 1) ≠
        .error stackOverflow := by
    intro w₀ hsound hsize
    rcases pollFlushAndWrite_cases adapter w₀ answer with ⟨w₁, hok, hwrite⟩ | ⟨result, hne, hresult⟩
    · obtain ⟨hsame, view, hstate, hzero⟩ := pollFlush_through hsteady hok
      rw [hwrite]
      refine pollWrite_room_ends hadapter (pollFlush_took hadapter hsound hok).1.sound hstate ?_ 0
      rw [← hsame, nextSize_of_view (by rw [hstate]; rfl)] at hsize
      change size (adapter.preWrite view.inner w₁.shared).1 - view.range.stop ≠ 0
      omega
    · rw [hresult]
      exact hne
  cases hstate : w.state with
  | empty =>
      obtain ⟨view, hview, -⟩ := h.view
      simp [hstate, BufWriterState.view?] at hview
  | pending view =>
      have hends := hflush w h hroom
      rw [pollWrite, hstate]
      exact hends
  | ready view =>
      by_cases hfull : (w.preparedView adapter view).spareCapacity = 0
      · have hends := hflush (w.prepared adapter view) (prepared_took hadapter h hstate).sound
          (by rw [nextSize_prepared hsteady hstate]; exact hroom)
        rw [pollWrite_full hstate hfull]
        exact hends
      · exact pollWrite_room_ends hadapter h hstate hfull 1

/-- With no room in the buffer and nothing to flush each call makes another. -/
theorem pollWrite_overflows (hsteady : adapter.Steady) (depth : Nat) :
    ∀ (w : BufWriterInner (List UInt8) B P) (view : View B RangeTo), w.state = .ready view →
      view.range.stop = 0 → w.nextSize adapter = 0 →
      pollWrite adapter data answer depth w = .error stackOverflow := by
  induction depth with
  | zero =>
      intro w view _ _ _
      rfl
  | succ depth ih =>
      intro w view hstate hzero hsize
      have hfull : (w.preparedView adapter view).spareCapacity = 0 := by
        rw [nextSize_of_view (by rw [hstate]; rfl)] at hsize
        change size _ - view.range.stop = 0
        rw [preparedView, hsize]
        exact Nat.zero_sub _
      have hflush : (w.prepared adapter view).pollFlush adapter answer =
          .ok (.ready (.ok ()), w.prepared adapter view) := by
        simp [pollFlush, prepared, preparedView, hzero]
      have hnext := ih (w.prepared adapter view) _ rfl hzero
        (by rw [nextSize_prepared hsteady hstate, hsize])
      rw [pollWrite_full hstate hfull, pollFlushAndWrite, hflush]
      exact hnext

theorem pollWrite_decides (hadapter : adapter.Faithful) (hsteady : adapter.Steady) (h : w.Sound)
    (data : List UInt8) (answer : Poll Nat) :
    Decides stackOverflow (fun depth => pollWrite adapter data answer depth w)
      (0 < w.nextSize adapter) where
  ends := fun hroom => Ends.of_stable (fun depth => pollWrite_stable depth w)
    (pollWrite_ends hadapter hsteady h hroom)
  spends := by
    intro hnone depth
    have hsize : w.nextSize adapter = 0 := by omega
    obtain ⟨view, hview, hstop⟩ := h.view
    have hwithin := (hadapter.preWrite view.inner w.shared _ hstop).1
    rw [← nextSize_of_view hview, hsize] at hwithin
    cases hstate : w.state with
    | empty => simp [hstate, BufWriterState.view?] at hview
    | pending view' =>
        have hpos := h.pending view' hstate
        obtain rfl : view' = view := by simpa [hstate, BufWriterState.view?] using hview
        omega
    | ready view' =>
        obtain rfl : view' = view := by simpa [hstate, BufWriterState.view?] using hview
        exact pollWrite_overflows hsteady depth w view' hstate (by omega) hsize

end BufWriterInner

/-! ## Any stream -/

namespace Writer

/-- The size of the buffer in the view, or of the one the set gives out if there is
none. -/
def nextSize : Writer → Nat
  | .stable w => w.nextSize ownedAdapter
  | .fixed w => w.nextSize fixedAdapter
  | .group w => w.nextSize groupAdapter

theorem pollWrite_decides {writer : Writer} (h : writer.Sound) (data : List UInt8)
    (answer : Poll Nat) :
    Decides stackOverflow (fun depth => writer.pollWrite depth data answer)
      (0 < writer.nextSize) := by
  cases writer with
  | stable w =>
      have hdecides := BufWriterInner.pollWrite_decides plain_faithful plain_steady h data answer
      exact hdecides.map fun ran => (ran.1, Writer.stable ran.2)
  | fixed w =>
      have hdecides := BufWriterInner.pollWrite_decides plain_faithful plain_steady h data answer
      exact hdecides.map fun ran => (ran.1, Writer.fixed ran.2)
  | group w =>
      have hdecides := BufWriterInner.pollWrite_decides group_faithful group_steady h data answer
      exact hdecides.map fun ran => (ran.1, Writer.group ran.2)

end Writer

namespace StreamRun

variable {s : StreamRun} {depth : Nat}

/-- A poll for writing ends, whatever it is given and whatever the sink answers, if
and only if the buffer it is to fill is not empty. -/
theorem pollWrite_ends_iff (h : Reach (machine depth) Any s) (data : List UInt8)
    (answer : Poll Nat) :
    Ends stackOverflow (fun depth => s.stream.pollWrite depth data answer) ↔
      0 < s.stream.pinnedInner.nextSize := by
  have hinner := Writer.pollWrite_decides (Inv.of_reach h).sound data answer
  exact (hinner.map fun ran => (ran.1, s.stream.put ran.2)).ends_iff

/-- A group writer with a buffer of two bytes in a set whose new buffers have none. -/
theorem pooled_writer_ends :
    ∃ s : StreamRun, Reach (machine 2) Any s ∧
      Ends stackOverflow (fun depth => s.stream.pollWrite depth [1, 2, 3] (.ready (.ok 2))) := by
  have hreach : Reach (machine 2) Any ⟨.shareBufStream (.supplyTo ⟨[[0, 0]], 0⟩), [], []⟩ :=
    .start ⟨.shareBufStream (.supplyTo ⟨[[0, 0]], 0⟩), ⟨_, rfl⟩, rfl⟩
  exact ⟨_, hreach, (pollWrite_ends_iff hreach [1, 2, 3] (.ready (.ok 2))).mpr (by decide)⟩

/-- A `BufWriter` that was made with capacity zero is given a byte. -/
theorem empty_writer_overflows :
    ∃ s : StreamRun, Reach (machine 2) Any s ∧ s.stream = .alone (.withCapacity 0) ∧
      (∀ depth, s.stream.pollWrite depth [1] .pending = .error stackOverflow) ∧
      ¬ Ends stackOverflow fun depth => s.stream.pollWrite depth [1] .pending := by
  have hreach : Reach (machine 2) Any ⟨.alone (.withCapacity 0), [], []⟩ :=
    .start ⟨.alone (.withCapacity 0), Or.inl ⟨0, rfl⟩, rfl⟩
  have hdecides := (Writer.pollWrite_decides (Inv.of_reach hreach).sound [1] .pending).map
    fun ran => (ran.1, Stream.alone ran.2)
  have hnone : ¬ 0 < (Writer.withCapacity 0).nextSize := by decide
  exact ⟨_, hreach, rfl, hdecides.spends hnone, fun hends => hnone (hdecides.ends_iff.mp hends)⟩

end StreamRun

end Inel.Io
