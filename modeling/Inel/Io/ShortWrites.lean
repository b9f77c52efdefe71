import Inel.Io.Streams

/-!
# Short writes

A write may take fewer bytes than it was given. A flush that is polled with such an
answer panics, and what the write left over is gone with the writer.
-/

namespace Inel.Io

open Inel.Reactor (Panic OsError)
open Transitions

/-- What `assert_eq!` says where a write took another number of bytes. -/
def shortWrite : Panic := .panicked "assertion `left == right` failed"

def BufWriterState.inFlight {B : Type} : BufWriterState B → Bool
  | .pending _ => true
  | _ => false

namespace BufWriterInner

variable {B P : Type} [Bytes B] {adapter : BufWriterAdapter (List UInt8) B P}
  {w : BufWriterInner (List UInt8) B P} {view : View B RangeTo} {n : Nat}

/-- The flush of a write that took `n` bytes returns, and the rest is next. -/
def Resumes (adapter : BufWriterAdapter (List UInt8) B P) (w : BufWriterInner (List UInt8) B P)
    (n : Nat) : Prop :=
  ∃ poll w', w.pollFlush adapter (.ready (.ok n)) = .ok (poll, w') ∧
    w'.sink = w.sink ++ w.held.take n ∧ w'.held = w.held.drop n ∧
    (poll = .ready (.ok ()) → w'.held = [])

omit [Bytes B] in
theorem pollFlush_short (hstate : w.state = .pending view) (hne : n ≠ view.range.stop) :
    w.pollFlush adapter (.ready (.ok n)) = .error shortWrite := by
  simp [pollFlush, pollFuture, hstate, hne, shortWrite]

theorem pollWrite_short (hstate : w.state = .pending view) (hne : n ≠ view.range.stop)
    (data : List UInt8) (depth : Nat) :
    pollWrite adapter data (.ready (.ok n)) (depth + 1) w = .error shortWrite := by
  have hflush : w.pollFlush adapter (.ready (.ok n)) = .error shortWrite :=
    pollFlush_short hstate hne
  simp only [pollWrite, hstate, pollFlushAndWrite, hflush]
  rfl

theorem resumes_whole
    (hwrote : ∀ sink view n, adapter.wrote sink view n = sink ++ view.stableSlice.take n)
    (hstate : w.state = .pending view) : w.Resumes adapter view.range.stop := by
  have hview : w.state.view? = some view := by rw [hstate]; rfl
  have hok : w.pollFlush adapter (.ready (.ok view.range.stop)) =
      .ok (.ready (.ok ()), w.flushed adapter view) := by
    rw [pollFlush, hstate]
    exact pollFuture_whole adapter w view
  have hempty := flushed_held adapter w view
  refine ⟨_, _, hok, ?_, ?_, fun _ => hempty⟩
  · rw [held_of_view hview]
    exact hwrote _ _ _
  · rw [held_of_view hview, List.drop_of_length_le view.length_stableSlice_le]
    exact hempty

theorem resumes_iff
    (hwrote : ∀ sink view n, adapter.wrote sink view n = sink ++ view.stableSlice.take n)
    (hstate : w.state = .pending view) : w.Resumes adapter n ↔ n = view.range.stop := by
  constructor
  · rintro ⟨poll, w', hok, -⟩
    by_contra hne
    rw [pollFlush_short hstate hne] at hok
    simp at hok
  · rintro rfl
    exact resumes_whole hwrote hstate

end BufWriterInner

namespace Writer

variable {writer : Writer} {n : Nat}

def inFlight : Writer → Bool
  | .stable w => w.state.inFlight
  | .fixed w => w.state.inFlight
  | .group w => w.state.inFlight

/-- Polled with a write that took `n` bytes, a flush hands these on, holds the others
and is through only if there are none. -/
def Resumes (writer : Writer) (n : Nat) : Prop :=
  ∃ poll writer', writer.pollFlush (.ready (.ok n)) = .ok (poll, writer') ∧
    writer'.delivered = writer.delivered ++ writer.held.take n ∧
    writer'.held = writer.held.drop n ∧ (poll = .ready (.ok ()) → writer'.held = [])

section Kinds

variable {B P : Type} [Bytes B] {adapter : BufWriterAdapter (List UInt8) B P}
  {w : BufWriterInner (List UInt8) B P} {make : BufWriterInner (List UInt8) B P → Writer}

theorem resumes_make (hdelivered : ∀ w, (make w).delivered = w.sink)
    (hheld : ∀ w, (make w).held = w.held)
    (hflush : ∀ answer, (make w).pollFlush answer = do
      let (poll, w') ← w.pollFlush adapter answer
      return (poll, make w')) : (make w).Resumes n ↔ w.Resumes adapter n := by
  unfold Resumes
  rw [hflush]
  constructor
  · rintro ⟨poll, writer', hok, hsink, hrest, hdone⟩
    obtain ⟨ran, hran, hret⟩ := bind_eq_ok hok
    obtain ⟨rfl, rfl⟩ := Prod.mk.inj (Except.ok.inj hret)
    rw [hdelivered, hdelivered, hheld] at hsink
    rw [hheld, hheld] at hrest
    rw [hheld] at hdone
    exact ⟨_, _, hran, hsink, hrest, hdone⟩
  · rintro ⟨poll, w', hok, hsink, hrest, hdone⟩
    refine ⟨poll, make w', ?_, ?_, ?_, ?_⟩
    · rw [hok]
      rfl
    · rw [hdelivered, hdelivered, hheld, hsink]
    · rw [hheld, hheld, hrest]
    · rw [hheld]
      exact hdone

theorem resumes_make_iff (hadapter : adapter.Faithful)
    (hdelivered : ∀ w, (make w).delivered = w.sink) (hheld : ∀ w, (make w).held = w.held)
    (hflush : ∀ answer, (make w).pollFlush answer = do
      let (poll, w') ← w.pollFlush adapter answer
      return (poll, make w')) (hflight : w.state.inFlight = true) :
    (make w).Resumes n ↔ w.state.view?.map (·.range.stop) = some n := by
  rw [resumes_make hdelivered hheld hflush]
  cases hstate : w.state with
  | empty => simp [hstate, BufWriterState.inFlight] at hflight
  | ready view => simp [hstate, BufWriterState.inFlight] at hflight
  | pending view =>
      rw [BufWriterInner.resumes_iff hadapter.wrote hstate, BufWriterState.view?, Option.map_some,
        Option.some.injEq]
      exact eq_comm

theorem short_make
    (hflush : ∀ answer, (make w).pollFlush answer = do
      let (poll, w') ← w.pollFlush adapter answer
      return (poll, make w'))
    (hwrite : ∀ depth data answer, (make w).pollWrite depth data answer = do
      let (poll, w') ← BufWriterInner.pollWrite adapter data answer depth w
      return (poll, make w'))
    (hflight : w.state.inFlight = true)
    (hshort : w.state.view?.map (·.range.stop) ≠ some n) :
    (make w).pollFlush (.ready (.ok n)) = .error shortWrite ∧
      ∀ depth data, (make w).pollWrite (depth + 1) data (.ready (.ok n)) = .error shortWrite := by
  cases hstate : w.state with
  | empty => simp [hstate, BufWriterState.inFlight] at hflight
  | ready view => simp [hstate, BufWriterState.inFlight] at hflight
  | pending view =>
      have hne : n ≠ view.range.stop := by
        rintro rfl
        exact hshort (by rw [hstate]; rfl)
      constructor
      · rw [hflush, BufWriterInner.pollFlush_short hstate hne]
        rfl
      · intro depth data
        rw [hwrite, BufWriterInner.pollWrite_short hstate hne]
        rfl

end Kinds

/-- A flush goes on with what a write left over exactly if it left nothing. With any
other number the assertion fails, also in a poll for writing. -/
theorem short_write_resumed_iff (h : writer.inFlight = true) (n : Nat) :
    (writer.Resumes n ↔ writer.pos? = some n) ∧
    (writer.pos? ≠ some n → writer.pollFlush (.ready (.ok n)) = .error shortWrite ∧
      ∀ depth data, writer.pollWrite (depth + 1) data (.ready (.ok n)) = .error shortWrite) := by
  cases writer with
  | stable w =>
      exact ⟨resumes_make_iff plain_faithful (fun _ => rfl) (fun _ => rfl) (fun _ => rfl) h,
        short_make (fun _ => rfl) (fun _ _ _ => rfl) h⟩
  | fixed w =>
      exact ⟨resumes_make_iff plain_faithful (fun _ => rfl) (fun _ => rfl) (fun _ => rfl) h,
        short_make (fun _ => rfl) (fun _ _ _ => rfl) h⟩
  | group w =>
      exact ⟨resumes_make_iff group_faithful (fun _ => rfl) (fun _ => rfl) (fun _ => rfl) h,
        short_make (fun _ => rfl) (fun _ _ _ => rfl) h⟩

def threeInFlight : Writer := .stable ⟨.pending ⟨[1, 2, 3, 0], ⟨3⟩⟩, [], ()⟩

/-- Taken whole, nothing of them is left. -/
theorem whole_write_resumes : threeInFlight.Resumes 3 :=
  (short_write_resumed_iff rfl 3).1.mpr rfl

/-- The three bytes are written to a `BufWriter` and flushed, and the write takes one
of them. -/
theorem short_write_panics :
    (∃ s : StreamRun, Reach (StreamRun.machine 2) Any s ∧ s.stream = .alone threeInFlight) ∧
      threeInFlight.held = [1, 2, 3] ∧
      threeInFlight.pollFlush (.ready (.ok 1)) = .error shortWrite ∧
      ¬ threeInFlight.Resumes 1 := by
  refine ⟨?_, rfl, rfl, ?_⟩
  · have hany : ∀ (s : StreamRun) (move : WriterMove), true = true →
        (StreamRun.machine 2).permits s move ∧ Any s move := fun _ _ _ => ⟨trivial, trivial⟩
    obtain ⟨s, hreach, htest⟩ := Reach.of_replay (M := StreamRun.machine 2) (fun _ _ => true) hany
      (.start ⟨.alone (.withCapacity 4), Or.inl ⟨4, rfl⟩, rfl⟩)
      [.pollWrite [1, 2, 3] .pending, .pollFlush .pending]
      (fun s => s.stream = .alone threeInFlight) rfl
    exact ⟨s, hreach, of_decide_eq_true htest⟩
  · rintro ⟨poll, writer', hok, -⟩
    simp [pollFlush, call, threeInFlight, BufWriterInner.pollFlush, BufWriterInner.pollFuture,
      bind, Except.bind] at hok

end Writer

end Inel.Io
