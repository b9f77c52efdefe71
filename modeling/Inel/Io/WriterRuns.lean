import Inel.Base.Transition
import Inel.Io.BufWriter

/-!
# What writers deliver

A writer is polled for writing and flushing, and a `BufWriter` may be made a
`FixedBufWriter` on the way. Whatever its writes answer, the bytes that went in
come out in the same order, those still held last.
-/

namespace Inel.Io

open Inel.Reactor (Panic OsError)
open Transitions

inductive Writer
  | stable (w : BufWriterInner (List UInt8) BoxBuf Unit)
  | fixed (w : BufWriterInner (List UInt8) Fixed Unit)
  | group (w : BufWriterInner (List UInt8) (Option BoxBuf) (WriteBufferSet BoxBuf))
deriving DecidableEq, Repr

def takeBytes {B : Type} [Bytes B] (sink : List UInt8) (view : View B RangeTo) (n : Nat) :
    List UInt8 :=
  sink ++ view.stableSlice.take n

def zeroed (capacity : Nat) : BoxBuf := List.replicate capacity 0

def ownedAdapter : BufWriterAdapter (List UInt8) BoxBuf Unit := .plain takeBytes

def fixedAdapter : BufWriterAdapter (List UInt8) Fixed Unit := .plain takeBytes

def groupAdapter : BufWriterAdapter (List UInt8) (Option BoxBuf) (WriteBufferSet BoxBuf) :=
  .group takeBytes (fun set => set.get zeroed) fun buffer set => set.insert buffer

/-- Why `fix` gave a writer or reader up: it was in use, or the buffer could not be
registered. -/
inductive FixError
  | other (message : String)
  | register
deriving DecidableEq, Repr

namespace Writer

def withCapacity (capacity : Nat) : Writer := .stable (.new (zeroed capacity) [] 0 ())

def supplyTo (set : WriteBufferSet BoxBuf) : Writer := .group (.new none [] 0 set)

def delivered : Writer → List UInt8
  | .stable w => w.sink
  | .fixed w => w.sink
  | .group w => w.sink

def held : Writer → List UInt8
  | .stable w => w.held
  | .fixed w => w.held
  | .group w => w.held

def pos? : Writer → Option Nat
  | .stable w => w.state.view?.map (·.range.stop)
  | .fixed w => w.state.view?.map (·.range.stop)
  | .group w => w.state.view?.map (·.range.stop)

def call {α : Type}
    (run : ∀ {B P : Type} [Bytes B], BufWriterAdapter (List UInt8) B P →
      BufWriterInner (List UInt8) B P → Except Panic (α × BufWriterInner (List UInt8) B P)) :
    Writer → Except Panic (α × Writer)
  | .stable w => do
      let (value, w) ← run ownedAdapter w
      return (value, .stable w)
  | .fixed w => do
      let (value, w) ← run fixedAdapter w
      return (value, .fixed w)
  | .group w => do
      let (value, w) ← run groupAdapter w
      return (value, .group w)

def pollWrite (depth : Nat) (data : List UInt8) (answer : Poll Nat) :
    Writer → Except Panic (Poll Nat × Writer) :=
  call fun adapter => BufWriterInner.pollWrite adapter data answer depth

def pollFlush (answer : Poll Nat) : Writer → Except Panic (Poll Unit × Writer) :=
  call fun adapter w => w.pollFlush adapter answer

/-- `poll_close` leaves the writer as it is. -/
def pollClose (writer : Writer) : Poll Unit × Writer := (.ready (.ok ()), writer)

/-- `slot` is the slot the buffer was registered in, if it could be. -/
def fix (slot : Option UInt32) : Writer → Except FixError Writer
  | .stable w =>
      match w.intoRawParts, slot with
      | (sink, some (buffer, pos)), some slot => .ok (.fixed (.new ⟨buffer, slot⟩ sink pos ()))
      | (_, some _), none => .error .register
      | (_, none), _ => .error (.other "BufWriter was in use")
  | writer => .ok writer

end Writer

/-! ## Runs -/

/-- A writer and the bytes it reported to have taken. -/
structure WriterRun where
  writer : Writer
  accepted : List UInt8
deriving DecidableEq, Repr

/-- `insert` and `get` are calls of others on the set of a group writer. -/
inductive WriterMove
  | pollWrite (data : List UInt8) (answer : Poll Nat)
  | pollFlush (answer : Poll Nat)
  | pollClose
  | fix (slot : Option UInt32)
  | insert (buffer : BoxBuf)
  | get
deriving Repr

/-- How a run ends. -/
inductive Ended
  | panic (panic : Panic)
  | unfixed (err : FixError)
deriving DecidableEq, Repr

namespace WriterRun

/-- A write takes the whole view, or fails and took nothing. -/
def whole (s : WriterRun) : Poll Nat → Bool
  | .ready (.ok wrote) => s.writer.pos? == some wrote
  | _ => true

def exec (depth : Nat) (s : WriterRun) : WriterMove → Except Ended WriterRun
  | .pollWrite data answer =>
      match s.writer.pollWrite depth data answer with
      | .ok (poll, writer) => .ok ⟨writer, s.accepted ++ BufWriterInner.accepted data poll⟩
      | .error panic => .error (.panic panic)
  | .pollFlush answer =>
      match s.writer.pollFlush answer with
      | .ok (_, writer) => .ok { s with writer := writer }
      | .error panic => .error (.panic panic)
  | .pollClose => .ok { s with writer := s.writer.pollClose.2 }
  | .fix slot =>
      match s.writer.fix slot with
      | .ok writer => .ok { s with writer := writer }
      | .error err => .error (.unfixed err)
  | .insert buffer =>
      match s.writer with
      | .group w => .ok { s with writer := .group { w with shared := w.shared.insert buffer } }
      | _ => .ok s
  | .get =>
      match s.writer with
      | .group w => .ok { s with writer := .group { w with shared := (w.shared.get zeroed).2 } }
      | _ => .ok s

def permits (s : WriterRun) : WriterMove → Bool
  | .pollWrite _ answer => s.whole answer
  | .pollFlush answer => s.whole answer
  | .insert buffer => 0 < buffer.length
  | _ => true

/-- Buffers have room; `depth` is how deep calls may nest. -/
def machine (depth : Nat) : Machine WriterRun WriterMove Ended where
  init s := (∃ capacity, 0 < capacity ∧ s = ⟨.withCapacity capacity, []⟩) ∨
    ∃ set : WriteBufferSet BoxBuf, 0 < set.capacity ∧ (∀ buffer ∈ set.buffers, 0 < buffer.length) ∧
      s = ⟨.supplyTo set, []⟩
  permits s move := s.permits move = true
  exec := exec depth

end WriterRun

/-! ## What the adapters do to buffers -/

def HasRoom {B : Type} [StableBuffer B] (buffer : B) : Prop := 0 < size buffer

theorem plain_lawful {B : Type} [Bytes B] :
    (BufWriterAdapter.plain (takeBytes (B := B))).Lawful HasRoom fun _ => True where
  wrote _ _ _ := rfl
  copyAt buffer pos data h := by
    rw [HasRoom, size_copyAt]
    exact h
  preWrite _ _ h _ := ⟨h, trivial, h, fun _ hpos => ⟨hpos, rfl⟩⟩
  postFlush _ _ h _ := ⟨h, trivial⟩

/-- A buffer with room, or none. -/
def RoomIfAny (buffer : Option BoxBuf) : Prop := ∀ box, buffer = some box → 0 < box.length

/-- A set that gives out buffers with room only. -/
def GivesRoom (set : WriteBufferSet BoxBuf) : Prop :=
  0 < set.capacity ∧ ∀ buffer ∈ set.buffers, 0 < buffer.length

theorem GivesRoom.get {set : WriteBufferSet BoxBuf} (h : GivesRoom set) :
    0 < (set.get zeroed).1.length ∧ GivesRoom (set.get zeroed).2 := by
  unfold WriteBufferSet.get
  split
  · next buffer buffers hbuffers =>
      have hall := h.2
      rw [hbuffers] at hall
      exact ⟨hall buffer List.mem_cons_self, h.1,
        fun other hmem => hall other (List.mem_cons_of_mem _ hmem)⟩
  · exact ⟨by simpa [zeroed] using h.1, h⟩

theorem GivesRoom.insert {set : WriteBufferSet BoxBuf} {buffer : BoxBuf} (h : GivesRoom set)
    (hbuffer : 0 < buffer.length) : GivesRoom (set.insert buffer) :=
  ⟨h.1, by simpa [WriteBufferSet.insert] using ⟨hbuffer, h.2⟩⟩

theorem group_lawful : groupAdapter.Lawful RoomIfAny GivesRoom where
  wrote _ _ _ := rfl
  copyAt buffer pos data h := by
    intro box hbox
    obtain ⟨old, rfl, rfl⟩ := Option.map_eq_some_iff.mp hbox
    have hsize : (copyAt old pos data).length = old.length := size_copyAt old pos data
    rw [hsize]
    exact h old rfl
  preWrite buffer set h hset := by
    cases buffer with
    | some box => exact ⟨h, hset, h box rfl, fun _ hpos => ⟨hpos, rfl⟩⟩
    | none =>
        obtain ⟨hroom, hgood⟩ := hset.get
        refine ⟨?_, hgood, hroom, ?_⟩
        · rintro box ⟨⟩
          exact hroom
        · intro pos hpos
          obtain rfl : pos = 0 := Nat.le_zero.mp hpos
          exact ⟨Nat.zero_le _, rfl⟩
  postFlush buffer set h hset := by
    cases buffer with
    | some box => exact ⟨by simp [RoomIfAny, groupAdapter, BufWriterAdapter.group],
        hset.insert (h box rfl)⟩
    | none => exact ⟨h, hset⟩

/-! ## Runs deliver in order -/

namespace Writer

variable {writer : Writer} {answer : Poll Nat}

def Inv : Writer → Prop
  | .stable w => w.Inv HasRoom fun _ => True
  | .fixed w => w.Inv HasRoom fun _ => True
  | .group w => w.Inv RoomIfAny GivesRoom

def total (writer : Writer) : List UInt8 := writer.delivered ++ writer.held

def Whole (writer : Writer) (answer : Poll Nat) : Prop :=
  ∀ wrote, answer = .ready (.ok wrote) → writer.pos? = some wrote

theorem whole_of_pos? {B P : Type} [Bytes B] {w : BufWriterInner (List UInt8) B P}
    (h : ∀ wrote, answer = .ready (.ok wrote) →
      w.state.view?.map (·.range.stop) = some wrote) : w.Whole answer := by
  intro wrote hanswer view hview
  have hpos := h wrote hanswer
  rw [hview] at hpos
  exact (Option.some.inj hpos).symm

theorem call_spec {α : Type} {Q : α → List UInt8 → List UInt8 → List UInt8 → Prop}
    {run : ∀ {B P : Type} [Bytes B], BufWriterAdapter (List UInt8) B P →
      BufWriterInner (List UInt8) B P → Except Panic (α × BufWriterInner (List UInt8) B P)}
    (hrun : ∀ {B P : Type} [Bytes B] {adapter : BufWriterAdapter (List UInt8) B P}
      {usable : B → Prop} {good : P → Prop} {w : BufWriterInner (List UInt8) B P},
      adapter.Lawful usable good → w.Inv usable good → w.Whole answer →
      ∃ value w', run adapter w = .ok (value, w') ∧ w'.Inv usable good ∧
        Q value w.total w'.total w'.held)
    (h : writer.Inv) (hwhole : writer.Whole answer) :
    ∃ value writer', writer.call run = .ok (value, writer') ∧ writer'.Inv ∧
      Q value writer.total writer'.total writer'.held := by
  cases writer with
  | stable w =>
      obtain ⟨value, w', hok, hinv, hq⟩ := hrun plain_lawful h (whole_of_pos? hwhole)
      refine ⟨value, .stable w', ?_, hinv, hq⟩
      simp only [call, ownedAdapter, hok, bind, Except.bind, pure, Except.pure]
  | fixed w =>
      obtain ⟨value, w', hok, hinv, hq⟩ := hrun plain_lawful h (whole_of_pos? hwhole)
      refine ⟨value, .fixed w', ?_, hinv, hq⟩
      simp only [call, fixedAdapter, hok, bind, Except.bind, pure, Except.pure]
  | group w =>
      obtain ⟨value, w', hok, hinv, hq⟩ := hrun group_lawful h (whole_of_pos? hwhole)
      refine ⟨value, .group w', ?_, hinv, hq⟩
      simp only [call, hok, bind, Except.bind, pure, Except.pure]

theorem pollWrite_spec (h : writer.Inv) (hwhole : writer.Whole answer) (data : List UInt8)
    (depth : Nat) :
    ∃ poll writer', writer.pollWrite (depth + 2) data answer = .ok (poll, writer') ∧
      writer'.Inv ∧ writer'.total = writer.total ++ BufWriterInner.accepted data poll ∧
      ∀ n, poll = .ready (.ok n) → n ≤ data.length := by
  refine call_spec (Q := fun (poll : Poll Nat) before after _ =>
    after = before ++ BufWriterInner.accepted data poll ∧
      ∀ n, poll = .ready (.ok n) → n ≤ data.length) ?_ h hwhole
  intro B P _ adapter usable good w hadapter hinv hwhole
  obtain ⟨poll, w', hok, hwrote⟩ := w.pollWrite_spec hadapter hinv hwhole data depth
  exact ⟨poll, w', hok, hwrote.inv, hwrote.total, hwrote.le⟩

theorem pollFlush_spec (h : writer.Inv) (hwhole : writer.Whole answer) :
    ∃ poll writer', writer.pollFlush answer = .ok (poll, writer') ∧ writer'.Inv ∧
      writer'.total = writer.total ∧ (poll = .ready (.ok ()) → writer'.held = []) := by
  refine call_spec (Q := fun (poll : Poll Unit) before after held =>
    after = before ∧ (poll = .ready (.ok ()) → held = [])) ?_ h hwhole
  intro B P _ adapter usable good w hadapter hinv hwhole
  obtain ⟨poll, w', hok, hinv', htotal, hdone⟩ := w.pollFlush_spec hadapter hinv hwhole
  exact ⟨poll, w', hok, hinv', htotal, fun hpoll => (hdone hpoll).1⟩

theorem fix_eq_ok {slot : Option UInt32} {writer' : Writer} (h : writer.fix slot = .ok writer') :
    writer' = writer ∨ ∃ w view number, writer = .stable w ∧ w.state = .ready view ∧
      writer' = .fixed (.new ⟨view.inner, number⟩ w.sink view.range.stop ()) := by
  cases writer with
  | fixed w => exact Or.inl (Except.ok.inj h).symm
  | group w => exact Or.inl (Except.ok.inj h).symm
  | stable w =>
      cases hstate : w.state with
      | empty => simp [fix, BufWriterInner.intoRawParts, hstate] at h
      | pending view => simp [fix, BufWriterInner.intoRawParts, hstate] at h
      | ready view =>
          cases slot with
          | none => simp [fix, BufWriterInner.intoRawParts, hstate] at h
          | some number =>
              simp only [fix, BufWriterInner.intoRawParts, hstate] at h
              exact Or.inr ⟨w, view, number, rfl, hstate, (Except.ok.inj h).symm⟩

/-- Registering the buffer moves it with what is in it. -/
theorem fixed_total {w : BufWriterInner (List UInt8) BoxBuf Unit} {view : View BoxBuf RangeTo}
    (hstate : w.state = .ready view) (number : UInt32) :
    (Writer.fixed (.new ⟨view.inner, number⟩ w.sink view.range.stop ())).total =
      (Writer.stable w).total := by
  have hheld : w.held = view.stableSlice := BufWriterInner.held_of_view (by rw [hstate]; rfl)
  rw [total, total, delivered, delivered, held, held, hheld, BufWriterInner.held_of_view rfl,
    View.stableSlice_rangeTo, View.stableSlice_rangeTo]
  rfl

theorem fix_spec {slot : Option UInt32} {writer' : Writer} (h : writer.Inv)
    (hok : writer.fix slot = .ok writer') : writer'.Inv ∧ writer'.total = writer.total := by
  rcases fix_eq_ok hok with rfl | ⟨w, view, number, rfl, hstate, rfl⟩
  · exact ⟨h, rfl⟩
  · obtain ⟨view', hview, hroom, hstop⟩ := h.view
    obtain rfl : view = view' := by simpa [hstate, BufWriterState.view?] using hview
    exact ⟨⟨⟨_, rfl, hroom, hstop⟩, trivial⟩, fixed_total hstate number⟩

end Writer

namespace WriterRun

variable {s s' : WriterRun} {depth : Nat}

structure Inv (s : WriterRun) : Prop where
  writer : s.writer.Inv
  total : s.writer.total = s.accepted

theorem whole_iff {answer : Poll Nat} : s.whole answer = true ↔ s.writer.Whole answer := by
  unfold whole Writer.Whole
  constructor
  · intro h wrote heq
    subst heq
    simpa using h
  · intro h
    split
    · next wrote => simpa using h wrote rfl
    · rfl

theorem Inv.init (h : (machine depth).init s) : s.Inv := by
  rcases h with ⟨capacity, hpos, rfl⟩ | ⟨set, hpos, hbuffers, rfl⟩
  · have hroom : HasRoom (zeroed capacity) := by
      change 0 < (List.replicate capacity (0 : UInt8)).length
      rwa [List.length_replicate]
    exact ⟨⟨⟨_, rfl, hroom, Nat.zero_le _⟩, trivial⟩, rfl⟩
  · exact ⟨⟨⟨_, rfl, by simp [RoomIfAny], Nat.zero_le _⟩, hpos, hbuffers⟩, rfl⟩

theorem Inv.step {move : WriterMove} (h : s.Inv) (hpermits : s.permits move = true)
    (hok : s.exec (depth + 2) move = .ok s') : s'.Inv := by
  cases move with
  | pollWrite data answer =>
      obtain ⟨poll, writer', hwrite, hinv, htotal, -⟩ :=
        Writer.pollWrite_spec h.writer (whole_iff.mp hpermits) data depth
      simp only [exec, hwrite] at hok
      obtain rfl := Except.ok.inj hok
      exact ⟨hinv, by rw [htotal, h.total]⟩
  | pollFlush answer =>
      obtain ⟨poll, writer', hflush, hinv, htotal, -⟩ :=
        Writer.pollFlush_spec h.writer (whole_iff.mp hpermits)
      simp only [exec, hflush] at hok
      obtain rfl := Except.ok.inj hok
      exact ⟨hinv, by rw [htotal, h.total]⟩
  | pollClose =>
      obtain rfl := Except.ok.inj hok
      exact h
  | fix slot =>
      simp only [exec] at hok
      split at hok
      · next writer' hfix =>
          obtain rfl := Except.ok.inj hok
          obtain ⟨hinv, htotal⟩ := Writer.fix_spec h.writer hfix
          exact ⟨hinv, by rw [htotal, h.total]⟩
      · simp at hok
  | insert buffer =>
      simp only [exec] at hok
      split at hok
      · next w hwriter =>
          obtain rfl := Except.ok.inj hok
          have hinv := h.writer
          have htotal := h.total
          rw [hwriter] at hinv htotal
          exact ⟨⟨hinv.view, hinv.shared.insert (of_decide_eq_true hpermits)⟩, htotal⟩
      · obtain rfl := Except.ok.inj hok
        exact h
  | get =>
      simp only [exec] at hok
      split at hok
      · next w hwriter =>
          obtain rfl := Except.ok.inj hok
          have hinv := h.writer
          have htotal := h.total
          rw [hwriter] at hinv htotal
          exact ⟨⟨hinv.view, hinv.shared.get.2⟩, htotal⟩
      · obtain rfl := Except.ok.inj hok
        exact h

theorem Inv.of_reach (h : Reach (machine (depth + 2)) Any s) : s.Inv :=
  h.invariant (fun _ hinit => .init hinit) fun _ _ _ hinv hpermits _ hok => hinv.step hpermits hok

/-- What was accepted is what the sink got and what is held, and the next call keeps
it so: it accepts what it reports, and a flush that is through leaves nothing. -/
theorem accepted_bytes_reach_the_sink (h : Reach (machine (depth + 2)) Any s) :
    s.writer.delivered ++ s.writer.held = s.accepted ∧
      (∀ data answer, s.permits (.pollWrite data answer) = true →
        ∃ poll writer', s.writer.pollWrite (depth + 2) data answer = .ok (poll, writer') ∧
          writer'.delivered ++ writer'.held =
            s.accepted ++ BufWriterInner.accepted data poll ∧
          ∀ n, poll = .ready (.ok n) → n ≤ data.length) ∧
      ∀ answer, s.permits (.pollFlush answer) = true →
        ∃ poll writer', s.writer.pollFlush answer = .ok (poll, writer') ∧
          writer'.delivered ++ writer'.held = s.accepted ∧
          (poll = .ready (.ok ()) → writer'.held = []) := by
  have hinv := Inv.of_reach h
  refine ⟨hinv.total, fun data answer hpermits => ?_, fun answer hpermits => ?_⟩
  · obtain ⟨poll, writer', hok, -, htotal, hle⟩ :=
      Writer.pollWrite_spec hinv.writer (whole_iff.mp hpermits) data depth
    exact ⟨poll, writer', hok, by rw [← hinv.total]; exact htotal, hle⟩
  · obtain ⟨poll, writer', hok, -, htotal, hdone⟩ :=
      Writer.pollFlush_spec hinv.writer (whole_iff.mp hpermits)
    exact ⟨poll, writer', hok, htotal.trans hinv.total, hdone⟩

/-- A write that failed is tried again with a registered buffer. -/
theorem failed_write_tried_again :
    ∃ s : WriterRun, s.writer.delivered ++ s.writer.held = s.accepted ∧
      s.writer.delivered = [1, 2] ∧ s.writer.held = [3] := by
  obtain ⟨s, hreach, htest⟩ := Reach.of_replay (M := machine (0 + 2)) permits
    (fun s move h => ⟨h, trivial⟩) (.start (Or.inl ⟨2, by decide, rfl⟩))
    [.pollWrite [1] .pending, .pollWrite [2, 3] .pending, .pollFlush .pending,
      .pollWrite [3] (.ready (.error ⟨5⟩)), .fix (some 0), .pollWrite [3] .pending,
      .pollWrite [3] (.ready (.ok 2))]
    (fun s => s.writer.delivered == [1, 2] && s.writer.held == [3]) rfl
  simp only [Bool.and_eq_true, beq_iff_eq] at htest
  exact ⟨s, (accepted_bytes_reach_the_sink hreach).1, htest⟩

end WriterRun

end Inel.Io
