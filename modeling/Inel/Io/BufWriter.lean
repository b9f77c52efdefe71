import Inel.Base.Transition
import Inel.Io.View
import Inel.Op.Basic

/-!
# Buffered writers

A writer copies what it is given into a buffer and writes the buffer out when it
is full or when it is asked to. While a write is in flight the buffer belongs to
it. What the writers of the three kinds do differently is in their adapters.
-/

namespace Inel.Io

open Inel.Reactor (Panic OsError)
open Transitions (bind_eq_ok)

inductive Poll (α : Type)
  | pending
  | ready (result : Except OsError α)
deriving Repr

inductive BufWriterState (B : Type)
  | empty
  | pending (view : View B RangeTo)
  | ready (view : View B RangeTo)
deriving DecidableEq, Repr

/-- `S` is the sink and `P` what the adapter shares with others. -/
structure BufWriterInner (S B P : Type) where
  state : BufWriterState B
  sink : S
  shared : P
deriving DecidableEq, Repr

/-- `wrote` is what a write that took so many bytes of a view does to the sink. -/
structure BufWriterAdapter (S B P : Type) where
  wrote : S → View B RangeTo → Nat → S
  preWrite : B → P → B × P
  postFlush : B → P → B × P

namespace BufWriterState

variable {B : Type}

def view? : BufWriterState B → Option (View B RangeTo)
  | .empty => none
  | .pending view => some view
  | .ready view => some view

end BufWriterState

/-- Calls nested too deep. -/
def stackOverflow : Panic := .panicked "stack overflow"

namespace BufWriterInner

variable {S B P : Type}

def new (buffer : B) (sink : S) (pos : Nat) (shared : P) : BufWriterInner S B P :=
  ⟨.ready ⟨buffer, ⟨pos⟩⟩, sink, shared⟩

def intoRawParts (w : BufWriterInner S B P) : S × Option (B × Nat) :=
  match w.state with
  | .ready view => (w.sink, some (view.inner, view.range.stop))
  | _ => (w.sink, none)

/-- Polls the write in flight, which answers `answer`. -/
def pollFuture (adapter : BufWriterAdapter S B P) (w : BufWriterInner S B P)
    (view : View B RangeTo) (answer : Poll Nat) :
    Except Panic (Poll Unit × BufWriterInner S B P) :=
  match answer with
  | .pending => .ok (.pending, { w with state := .pending view })
  | .ready (.error err) => .ok (.ready (.error err), { w with state := .ready view })
  | .ready (.ok wrote) =>
      if wrote = view.range.stop then
        let (inner, shared) := adapter.postFlush view.inner w.shared
        .ok (.ready (.ok ()), { w with
          state := .ready ⟨inner, ⟨0⟩⟩, sink := adapter.wrote w.sink view wrote,
          shared := shared })
      else .error (.panicked "assertion `left == right` failed")

/-- A buffer with something in it goes into a new write. -/
def pollFlush (adapter : BufWriterAdapter S B P) (w : BufWriterInner S B P)
    (answer : Poll Nat) : Except Panic (Poll Unit × BufWriterInner S B P) :=
  match w.state with
  | .empty => .error (.unreachable "")
  | .pending view => w.pollFuture adapter view answer
  | .ready view =>
      if view.range.stop == 0 then .ok (.ready (.ok ()), w)
      else w.pollFuture adapter view answer

def pollFlushAndWrite (adapter : BufWriterAdapter S B P) (w : BufWriterInner S B P)
    (answer : Poll Nat)
    (pollWrite : BufWriterInner S B P → Except Panic (Poll Nat × BufWriterInner S B P)) :
    Except Panic (Poll Nat × BufWriterInner S B P) := do
  let (poll, w) ← w.pollFlush adapter answer
  match poll with
  | .pending => return (.pending, w)
  | .ready (.error err) => return (.ready (.error err), w)
  | .ready (.ok ()) => pollWrite w

/-- `depth` is how deep the calls may nest. A write in flight is polled at most
once, since nothing is left to write after it succeeded. -/
def pollWrite [StableBufferMut B] (adapter : BufWriterAdapter S B P) (data : List UInt8)
    (answer : Poll Nat) :
    Nat → BufWriterInner S B P → Except Panic (Poll Nat × BufWriterInner S B P)
  | 0, _ => .error stackOverflow
  | depth + 1, w =>
      match w.state with
      | .empty => .error (.unreachable "")
      | .pending _ => w.pollFlushAndWrite adapter answer (pollWrite adapter data answer depth)
      | .ready view =>
          let (inner, shared) := adapter.preWrite view.inner w.shared
          let view := { view with inner := inner }
          let w := { w with state := .ready view, shared := shared }
          let spare := view.spareCapacity
          if spare = 0 then
            w.pollFlushAndWrite adapter answer (pollWrite adapter data answer depth)
          else do
            let (wrote, view) ← view.fill (data.take (min spare data.length))
            return (.ready (.ok wrote), { w with state := .ready view })

/-! ### What calls that return did -/

section Returned

variable {adapter : BufWriterAdapter S B P} {w w' : BufWriterInner S B P} {answer : Poll Nat}

def flushed (adapter : BufWriterAdapter S B P) (w : BufWriterInner S B P)
    (view : View B RangeTo) : BufWriterInner S B P :=
  let (inner, shared) := adapter.postFlush view.inner w.shared
  { w with
    state := .ready ⟨inner, ⟨0⟩⟩, sink := adapter.wrote w.sink view view.range.stop,
    shared := shared }

theorem pollFuture_whole (adapter : BufWriterAdapter S B P) (w : BufWriterInner S B P)
    (view : View B RangeTo) : w.pollFuture adapter view (.ready (.ok view.range.stop)) =
      .ok (.ready (.ok ()), w.flushed adapter view) :=
  if_pos rfl

theorem pollFuture_eq_ok {view : View B RangeTo} {poll : Poll Unit}
    (h : w.pollFuture adapter view answer = .ok (poll, w')) :
    (poll ≠ .ready (.ok ()) ∧
      (w' = { w with state := .pending view } ∨ w' = { w with state := .ready view })) ∨
    poll = .ready (.ok ()) ∧ w' = w.flushed adapter view := by
  unfold pollFuture at h
  cases answer with
  | pending =>
      obtain ⟨rfl, rfl⟩ := Prod.mk.inj (Except.ok.inj h)
      exact Or.inl ⟨by simp, Or.inl rfl⟩
  | ready result =>
      cases result with
      | error err =>
          obtain ⟨rfl, rfl⟩ := Prod.mk.inj (Except.ok.inj h)
          exact Or.inl ⟨by simp, Or.inr rfl⟩
      | ok wrote =>
          by_cases hall : wrote = view.range.stop
          · subst hall
            simp only [if_true] at h
            obtain ⟨rfl, rfl⟩ := Prod.mk.inj (Except.ok.inj h)
            exact Or.inr ⟨rfl, rfl⟩
          · simp [hall] at h

theorem pollFlush_eq_ok {poll : Poll Unit} (h : w.pollFlush adapter answer = .ok (poll, w')) :
    (∃ view, w.state = .ready view ∧ view.range.stop = 0 ∧ poll = .ready (.ok ()) ∧ w' = w) ∨
    ∃ view, (w.state = .pending view ∨ w.state = .ready view ∧ 0 < view.range.stop) ∧
      w.pollFuture adapter view answer = .ok (poll, w') := by
  unfold pollFlush at h
  cases hstate : w.state with
  | empty => simp [hstate] at h
  | pending view =>
      rw [hstate] at h
      exact Or.inr ⟨view, Or.inl rfl, h⟩
  | ready view =>
      simp only [hstate] at h
      by_cases hzero : view.range.stop = 0
      · simp only [hzero, beq_self_eq_true, if_true] at h
        obtain ⟨rfl, rfl⟩ := Prod.mk.inj (Except.ok.inj h)
        exact Or.inl ⟨view, rfl, hzero, rfl, rfl⟩
      · simp only [beq_iff_eq, hzero, if_false] at h
        exact Or.inr ⟨view, Or.inr ⟨rfl, Nat.pos_of_ne_zero hzero⟩, h⟩

theorem pollFlushAndWrite_eq_ok {poll : Poll Nat}
    {write : BufWriterInner S B P → Except Panic (Poll Nat × BufWriterInner S B P)}
    (h : w.pollFlushAndWrite adapter answer write = .ok (poll, w')) :
    ∃ done w₁, w.pollFlush adapter answer = .ok (done, w₁) ∧
      (((∀ n, poll ≠ .ready (.ok n)) ∧ w' = w₁) ∨
        done = .ready (.ok ()) ∧ write w₁ = .ok (poll, w')) := by
  obtain ⟨⟨done, w₁⟩, hflush, hrest⟩ := bind_eq_ok h
  refine ⟨done, w₁, hflush, ?_⟩
  cases done with
  | pending =>
      obtain ⟨rfl, rfl⟩ := Prod.mk.inj (Except.ok.inj hrest)
      exact Or.inl ⟨by simp, rfl⟩
  | ready result =>
      cases result with
      | error err =>
          obtain ⟨rfl, rfl⟩ := Prod.mk.inj (Except.ok.inj hrest)
          exact Or.inl ⟨by simp, rfl⟩
      | ok done => exact Or.inr ⟨rfl, hrest⟩

end Returned

end BufWriterInner

/-! ## The three kinds -/

/-- The adapters of `BufWriter` and `FixedBufWriter` have no hooks. -/
def BufWriterAdapter.plain {S B : Type} (wrote : S → View B RangeTo → Nat → S) :
    BufWriterAdapter S B Unit where
  wrote := wrote
  preWrite := Prod.mk
  postFlush := Prod.mk

/-- The buffer put in last is the head of `buffers`. -/
structure WriteBufferSet (B : Type) where
  buffers : List B
  capacity : Nat
deriving DecidableEq, Repr

namespace WriteBufferSet

variable {B : Type}

def insert (set : WriteBufferSet B) (buffer : B) : WriteBufferSet B :=
  { set with buffers := buffer :: set.buffers }

/-- `alloc` makes a buffer of a given size. -/
def get (set : WriteBufferSet B) (alloc : Nat → B) : B × WriteBufferSet B :=
  match set.buffers with
  | buffer :: buffers => (buffer, { set with buffers := buffers })
  | [] => (alloc set.capacity, set)

end WriteBufferSet

/-- The adapter of `GroupBufWriter` takes a buffer of the set for each filling; `get`
and `insert` are what the set does. -/
def BufWriterAdapter.group {S B P : Type} (wrote : S → View (Option B) RangeTo → Nat → S)
    (get : P → B × P) (insert : B → P → P) : BufWriterAdapter S (Option B) P where
  wrote := wrote
  preWrite buffer set :=
    match buffer with
    | some buffer => (some buffer, set)
    | none =>
        let (buffer, set) := get set
        (some buffer, set)
  postFlush buffer set :=
    match buffer with
    | some buffer => (none, insert buffer set)
    | none => (none, set)

/-! ## What a call does -/

namespace BufWriterInner

variable {B P : Type} [Bytes B]

/-- The bytes written and not yet taken by the sink. -/
def held (w : BufWriterInner (List UInt8) B P) : List UInt8 :=
  (w.state.view?.map View.stableSlice).getD []

/-- All that went in, in order. -/
def total (w : BufWriterInner (List UInt8) B P) : List UInt8 := w.sink ++ w.held

/-- The write in flight answers that it wrote all of the view, or that it failed. -/
def Whole (w : BufWriterInner (List UInt8) B P) (answer : Poll Nat) : Prop :=
  ∀ wrote, answer = .ready (.ok wrote) →
    ∀ view, w.state.view? = some view → wrote = view.range.stop

end BufWriterInner

/-- What an adapter may do to buffers: `usable` ones have room or are absent, and
`good` sets give out usable buffers only. -/
structure BufWriterAdapter.Lawful {B P : Type} [Bytes B]
    (adapter : BufWriterAdapter (List UInt8) B P) (usable : B → Prop) (good : P → Prop) :
    Prop where
  wrote : ∀ sink view n, adapter.wrote sink view n = sink ++ view.stableSlice.take n
  copyAt : ∀ buffer pos data, usable buffer → usable (copyAt buffer pos data)
  /-- The bytes written so far stay, and there is room. -/
  preWrite : ∀ buffer shared, usable buffer → good shared →
    usable (adapter.preWrite buffer shared).1 ∧ good (adapter.preWrite buffer shared).2 ∧
      0 < size (adapter.preWrite buffer shared).1 ∧
      ∀ pos ≤ size buffer, pos ≤ size (adapter.preWrite buffer shared).1 ∧
        (stableSlice (adapter.preWrite buffer shared).1).take pos = (stableSlice buffer).take pos
  postFlush : ∀ buffer shared, usable buffer → good shared →
    usable (adapter.postFlush buffer shared).1 ∧ good (adapter.postFlush buffer shared).2

/-- What every call keeps. -/
structure BufWriterInner.Inv {B P : Type} [Bytes B] (usable : B → Prop) (good : P → Prop)
    (w : BufWriterInner (List UInt8) B P) : Prop where
  view : ∃ view, w.state.view? = some view ∧ usable view.inner ∧
    view.range.stop ≤ size view.inner
  shared : good w.shared

namespace BufWriterInner

variable {B P : Type} [Bytes B] {adapter : BufWriterAdapter (List UInt8) B P}
  {usable : B → Prop} {good : P → Prop} {w w' : BufWriterInner (List UInt8) B P}
  {answer : Poll Nat}

theorem held_of_view {view : View B RangeTo} (h : w.state.view? = some view) :
    w.held = view.stableSlice := by
  rw [held, h]
  rfl

theorem flushed_held (adapter : BufWriterAdapter (List UInt8) B P)
    (w : BufWriterInner (List UInt8) B P) (view : View B RangeTo) :
    (w.flushed adapter view).held = [] := by
  rw [held_of_view rfl]
  exact View.stableSlice_zero rfl

/-- What the view showed is what the sink took. -/
theorem flushed_total
    (hwrote : ∀ sink view n, adapter.wrote sink view n = sink ++ view.stableSlice.take n)
    {view : View B RangeTo} (hview : w.state.view? = some view) :
    (w.flushed adapter view).total = w.total := by
  rw [total, flushed_held, List.append_nil, total, held_of_view hview]
  change adapter.wrote w.sink view view.range.stop = _
  rw [hwrote, List.take_of_length_le view.length_stableSlice_le]

theorem total_of_view {view : View B RangeTo} (hview : w.state.view? = some view)
    (hview' : w'.state.view? = some view) (hsink : w'.sink = w.sink) : w'.total = w.total := by
  rw [total, total, held_of_view hview, held_of_view hview', hsink]

theorem pollFuture_spec (hadapter : adapter.Lawful usable good) {view : View B RangeTo}
    (hview : w.state.view? = some view) (husable : usable view.inner)
    (hstop : view.range.stop ≤ size view.inner) (hgood : good w.shared)
    (hwhole : ∀ wrote, answer = .ready (.ok wrote) → wrote = view.range.stop) :
    ∃ poll w', w.pollFuture adapter view answer = .ok (poll, w') ∧ w'.Inv usable good ∧
      w'.total = w.total ∧ (poll = .ready (.ok ()) → w'.held = [] ∧
        ∃ view', w'.state = .ready view' ∧ view'.range.stop = 0) := by
  cases answer with
  | pending =>
      exact ⟨_, _, rfl, ⟨⟨view, rfl, husable, hstop⟩, hgood⟩, total_of_view hview rfl rfl, by simp⟩
  | ready result =>
      cases result with
      | error err =>
          exact ⟨_, _, rfl, ⟨⟨view, rfl, husable, hstop⟩, hgood⟩, total_of_view hview rfl rfl,
            by simp⟩
      | ok wrote =>
          obtain rfl := hwhole wrote rfl
          obtain ⟨husable', hgood'⟩ := hadapter.postFlush view.inner w.shared husable hgood
          exact ⟨_, _, pollFuture_whole adapter w view,
            ⟨⟨_, rfl, husable', Nat.zero_le _⟩, hgood'⟩, flushed_total hadapter.wrote hview,
            fun _ => ⟨flushed_held adapter w view, _, rfl, rfl⟩⟩

/-- A flush loses nothing, and holds nothing back when it is through. -/
theorem pollFlush_spec (hadapter : adapter.Lawful usable good) (h : w.Inv usable good)
    (hwhole : w.Whole answer) :
    ∃ poll w', w.pollFlush adapter answer = .ok (poll, w') ∧ w'.Inv usable good ∧
      w'.total = w.total ∧ (poll = .ready (.ok ()) → w'.held = [] ∧
        ∃ view', w'.state = .ready view' ∧ view'.range.stop = 0) := by
  obtain ⟨view, hview, husable, hstop⟩ := h.view
  have hfuture := pollFuture_spec hadapter hview husable hstop h.shared
    fun wrote hanswer => hwhole wrote hanswer view hview
  cases hstate : w.state with
  | empty => simp [hstate, BufWriterState.view?] at hview
  | pending view' =>
      obtain rfl : view' = view := by simpa [hstate, BufWriterState.view?] using hview
      rw [pollFlush, hstate]
      exact hfuture
  | ready view' =>
      obtain rfl : view' = view := by simpa [hstate, BufWriterState.view?] using hview
      by_cases hzero : view'.range.stop = 0
      · have hempty : w.held = [] := by
          rw [held_of_view hview]
          exact View.stableSlice_zero hzero
        have hflush : w.pollFlush adapter answer = .ok (.ready (.ok ()), w) := by
          simp [pollFlush, hstate, hzero]
        exact ⟨_, w, hflush, h, rfl, fun _ => ⟨hempty, view', hstate, hzero⟩⟩
      · have hflush : w.pollFlush adapter answer = w.pollFuture adapter view' answer := by
          simp [pollFlush, hstate, hzero]
        rw [hflush]
        exact hfuture

/-- What a poll for writing reports to have taken of the data. -/
def accepted (data : List UInt8) : Poll Nat → List UInt8
  | .ready (.ok n) => data.take n
  | _ => []

/-- What a call of `pollWrite` does: what it reports goes in, and nothing else. -/
structure Wrote (usable : B → Prop) (good : P → Prop) (data : List UInt8)
    (w : BufWriterInner (List UInt8) B P) (poll : Poll Nat)
    (w' : BufWriterInner (List UInt8) B P) : Prop where
  inv : w'.Inv usable good
  total : w'.total = w.total ++ accepted data poll
  le : ∀ n, poll = .ready (.ok n) → n ≤ data.length

def preparedView (adapter : BufWriterAdapter (List UInt8) B P)
    (w : BufWriterInner (List UInt8) B P) (view : View B RangeTo) : View B RangeTo :=
  { view with inner := (adapter.preWrite view.inner w.shared).1 }

def prepared (adapter : BufWriterAdapter (List UInt8) B P) (w : BufWriterInner (List UInt8) B P)
    (view : View B RangeTo) : BufWriterInner (List UInt8) B P :=
  { w with
    state := .ready (w.preparedView adapter view),
    shared := (adapter.preWrite view.inner w.shared).2 }

theorem prepared_spec (hadapter : adapter.Lawful usable good) {view : View B RangeTo}
    (hstate : w.state = .ready view) (h : w.Inv usable good) :
    (w.prepared adapter view).Inv usable good ∧ (w.prepared adapter view).total = w.total ∧
      0 < size (w.preparedView adapter view).inner := by
  obtain ⟨view', hview, husable, hstop⟩ := h.view
  obtain rfl : view = view' := by simpa [hstate, BufWriterState.view?] using hview
  obtain ⟨husable', hgood', hpos, hkeep⟩ := hadapter.preWrite view.inner w.shared husable h.shared
  obtain ⟨hstop', hslice⟩ := hkeep view.range.stop hstop
  refine ⟨⟨⟨_, rfl, husable', hstop'⟩, hgood'⟩, ?_, hpos⟩
  rw [total, total, held_of_view hview, held_of_view rfl, View.stableSlice_rangeTo,
    View.stableSlice_rangeTo]
  dsimp only [preparedView]
  rw [hslice]
  rfl

theorem pollWrite_full {view : View B RangeTo} (hstate : w.state = .ready view)
    (hfull : (w.preparedView adapter view).spareCapacity = 0) (data : List UInt8)
    (depth : Nat) : pollWrite adapter data answer (depth + 1) w =
      (w.prepared adapter view).pollFlushAndWrite adapter answer
        (pollWrite adapter data answer depth) := by
  rw [pollWrite, hstate]
  exact if_pos hfull

theorem pollWrite_room (hadapter : adapter.Lawful usable good) {view : View B RangeTo}
    (hstate : w.state = .ready view) (h : w.Inv usable good)
    (hroom : (w.preparedView adapter view).spareCapacity ≠ 0) (data : List UInt8) (depth : Nat) :
    ∃ poll w', pollWrite adapter data answer (depth + 1) w = .ok (poll, w') ∧
      Wrote usable good data w poll w' := by
  obtain ⟨⟨⟨view₁, hview₁, husable₁, hstop₁⟩, hgood₁⟩, htotal, -⟩ :=
    prepared_spec hadapter hstate h
  obtain rfl : w.preparedView adapter view = view₁ := Option.some.inj hview₁
  obtain ⟨view₂, hfill, hinner, hstop₂, hslice⟩ := View.fill_take data hstop₁
  have hok : pollWrite adapter data answer (depth + 1) w =
      .ok (.ready (.ok (min (w.preparedView adapter view).spareCapacity data.length)),
        { w.prepared adapter view with state := .ready view₂ }) := by
    simp only [preparedView] at hroom hfill
    simp only [pollWrite, hstate, hroom, hfill, if_false, bind, Except.bind, pure, Except.pure]
    rfl
  refine ⟨_, _, hok, ⟨⟨view₂, rfl, ?_, hstop₂⟩, hgood₁⟩, ?_, ?_⟩
  · rw [hinner]
    exact hadapter.copyAt _ _ _ husable₁
  · rw [← htotal, total, total, held_of_view hview₁]
    change w.sink ++ view₂.stableSlice = w.sink ++ _ ++ _
    rw [hslice, List.append_assoc]
    rfl
  · intro n hn
    obtain rfl : _ = n := Except.ok.inj (Poll.ready.inj hn)
    exact Nat.min_le_right _ _

theorem pollFlushAndWrite_spec (hadapter : adapter.Lawful usable good) (h : w.Inv usable good)
    (hwhole : w.Whole answer) (data : List UInt8)
    (pollWrite : BufWriterInner (List UInt8) B P →
      Except Panic (Poll Nat × BufWriterInner (List UInt8) B P))
    (hwrite : ∀ w₁, w₁.Inv usable good →
      (∃ view, w₁.state = .ready view ∧ view.range.stop = 0) →
      ∃ poll w', pollWrite w₁ = .ok (poll, w') ∧ Wrote usable good data w₁ poll w') :
    ∃ poll w', w.pollFlushAndWrite adapter answer pollWrite = .ok (poll, w') ∧
      Wrote usable good data w poll w' := by
  obtain ⟨poll, w₁, hflush, hinv, htotal, hdone⟩ := pollFlush_spec hadapter h hwhole
  cases poll with
  | pending =>
      refine ⟨.pending, w₁, ?_, hinv, ?_, by simp⟩
      · simp only [pollFlushAndWrite, hflush, bind, Except.bind, pure, Except.pure]
      · rw [htotal]
        exact (List.append_nil _).symm
  | ready result =>
      cases result with
      | error err =>
          refine ⟨.ready (.error err), w₁, ?_, hinv, ?_, by simp⟩
          · simp only [pollFlushAndWrite, hflush, bind, Except.bind, pure, Except.pure]
          · rw [htotal]
            exact (List.append_nil _).symm
      | ok done =>
          obtain ⟨poll, w', hok, hwrote⟩ := hwrite w₁ hinv (hdone rfl).2
          refine ⟨poll, w', ?_, hwrote.inv, ?_, hwrote.le⟩
          · simp only [pollFlushAndWrite, hflush, bind, Except.bind, hok]
          · rw [hwrote.total, htotal]

/-- A call that may nest twice ends, and takes what it reports. -/
theorem pollWrite_spec (hadapter : adapter.Lawful usable good) (h : w.Inv usable good)
    (hwhole : w.Whole answer) (data : List UInt8) (depth : Nat) :
    ∃ poll w', pollWrite adapter data answer (depth + 2) w = .ok (poll, w') ∧
      Wrote usable good data w poll w' := by
  have hwrite : ∀ w₁ : BufWriterInner (List UInt8) B P, w₁.Inv usable good →
      (∃ view, w₁.state = .ready view ∧ view.range.stop = 0) →
      ∃ poll w', pollWrite adapter data answer (depth + 1) w₁ = .ok (poll, w') ∧
        Wrote usable good data w₁ poll w' := by
    rintro w₁ hinv ⟨view, hstate, hzero⟩
    obtain ⟨-, -, hpos⟩ := prepared_spec hadapter hstate hinv
    refine pollWrite_room hadapter hstate hinv ?_ data depth
    rw [View.spareCapacity]
    change size _ - view.range.stop ≠ 0
    omega
  cases hstate : w.state with
  | empty =>
      obtain ⟨view, hview, -⟩ := h.view
      simp [hstate, BufWriterState.view?] at hview
  | pending view =>
      have hflush := pollFlushAndWrite_spec hadapter h hwhole data _ hwrite
      rw [pollWrite, hstate]
      exact hflush
  | ready view =>
      by_cases hroom : (w.preparedView adapter view).spareCapacity = 0
      · obtain ⟨hinv, htotal, -⟩ := prepared_spec hadapter hstate h
        have hwhole' : (w.prepared adapter view).Whole answer := by
          intro wrote hanswer view' hview'
          obtain rfl : w.preparedView adapter view = view' := Option.some.inj hview'
          exact hwhole wrote hanswer view (by rw [hstate]; rfl)
        obtain ⟨poll, w', hok, hwrote⟩ :=
          pollFlushAndWrite_spec hadapter hinv hwhole' data _ hwrite
        refine ⟨poll, w', ?_, hwrote.inv, by rw [hwrote.total, htotal], hwrote.le⟩
        rw [← hok]
        exact pollWrite_full hstate hroom data (depth + 1)
      · exact pollWrite_room hadapter hstate h hroom data (depth + 1)

end BufWriterInner

/-! ## What every call keeps -/

/-- `I` survives what an adapter does and what is copied to a buffer. -/
structure BufWriterAdapter.Keeps {S B P : Type} [StableBufferMut B]
    (adapter : BufWriterAdapter S B P) (I : B → P → Prop) : Prop where
  copyAt : ∀ buffer pos data shared, I buffer shared → I (copyAt buffer pos data) shared
  preWrite : ∀ buffer shared, I buffer shared →
    I (adapter.preWrite buffer shared).1 (adapter.preWrite buffer shared).2
  postFlush : ∀ buffer shared, I buffer shared →
    I (adapter.postFlush buffer shared).1 (adapter.postFlush buffer shared).2

namespace BufWriterInner

section Keeps

variable {S B P : Type} {adapter : BufWriterAdapter S B P} {I : B → P → Prop}
  {w w' : BufWriterInner S B P} {answer : Poll Nat}

/-- A buffer that is ready or in flight has the property. -/
def Holds (I : B → P → Prop) (w : BufWriterInner S B P) : Prop :=
  ∀ view, w.state.view? = some view → I view.inner w.shared

/-- There is such a buffer, and it has the property. -/
def Held (I : B → P → Prop) (w : BufWriterInner S B P) : Prop :=
  ∃ view, w.state.view? = some view ∧ I view.inner w.shared

theorem Held.holds (h : w.Held I) : w.Holds I := by
  obtain ⟨view, hview, hinner⟩ := h
  intro view' hview'
  obtain rfl := Option.some.inj (hview.symm.trans hview')
  exact hinner

variable [StableBufferMut B]

theorem pollFuture_keeps (hkeeps : adapter.Keeps I) {view : View B RangeTo}
    (h : I view.inner w.shared) {poll : Poll Unit}
    (hpoll : w.pollFuture adapter view answer = .ok (poll, w')) : w'.Held I := by
  rcases pollFuture_eq_ok hpoll with ⟨-, rfl | rfl⟩ | ⟨-, rfl⟩
  · exact ⟨view, rfl, h⟩
  · exact ⟨view, rfl, h⟩
  · exact ⟨_, rfl, hkeeps.postFlush view.inner w.shared h⟩

theorem pollFlush_keeps (hkeeps : adapter.Keeps I) (h : w.Holds I) {poll : Poll Unit}
    (hpoll : w.pollFlush adapter answer = .ok (poll, w')) : w'.Held I := by
  rcases pollFlush_eq_ok hpoll with ⟨view, hstate, -, -, rfl⟩ | ⟨view, hstate, hfuture⟩
  · have hview : w'.state.view? = some view := by rw [hstate]; rfl
    exact ⟨view, hview, h view hview⟩
  · have hview : w.state.view? = some view := by
      rcases hstate with hstate | ⟨hstate, -⟩ <;> rw [hstate] <;> rfl
    exact pollFuture_keeps hkeeps (h view hview) hfuture

theorem pollFlushAndWrite_keeps (hkeeps : adapter.Keeps I) (h : w.Holds I)
    {write : BufWriterInner S B P → Except Panic (Poll Nat × BufWriterInner S B P)}
    (hwrite : ∀ w₁ poll w₂, w₁.Holds I → write w₁ = .ok (poll, w₂) → w₂.Held I)
    {poll : Poll Nat} (hpoll : w.pollFlushAndWrite adapter answer write = .ok (poll, w')) :
    w'.Held I := by
  obtain ⟨done, w₁, hflush, hrest⟩ := pollFlushAndWrite_eq_ok hpoll
  have hflushed := pollFlush_keeps hkeeps h hflush
  rcases hrest with ⟨-, rfl⟩ | ⟨-, hrest⟩
  · exact hflushed
  · exact hwrite _ _ _ hflushed.holds hrest

theorem pollWrite_keeps (hkeeps : adapter.Keeps I) {data : List UInt8} {depth : Nat} :
    ∀ {w w' : BufWriterInner S B P} {poll : Poll Nat}, w.Holds I →
      pollWrite adapter data answer depth w = .ok (poll, w') → w'.Held I := by
  induction depth with
  | zero =>
      intro w w' poll _ hpoll
      simp [pollWrite] at hpoll
  | succ depth ih =>
      intro w w' poll h hpoll
      cases hstate : w.state with
      | empty => simp [pollWrite, hstate] at hpoll
      | pending view =>
          simp only [pollWrite, hstate] at hpoll
          exact pollFlushAndWrite_keeps hkeeps h (fun _ _ _ hholds => ih hholds) hpoll
      | ready view =>
          have hready := hkeeps.preWrite view.inner w.shared (h view (by rw [hstate]; rfl))
          simp only [pollWrite, hstate] at hpoll
          split at hpoll
          · have hheld : Held I { w with
                state := .ready { view with inner := (adapter.preWrite view.inner w.shared).1 },
                shared := (adapter.preWrite view.inner w.shared).2 } := ⟨_, rfl, hready⟩
            exact pollFlushAndWrite_keeps hkeeps hheld.holds (fun _ _ _ hholds => ih hholds) hpoll
          · obtain ⟨filled, hfill, hrest⟩ := bind_eq_ok hpoll
            obtain ⟨-, rfl⟩ := Prod.mk.inj (Except.ok.inj hrest)
            obtain ⟨copied, hcopy⟩ := View.inner_of_fill hfill
            refine ⟨filled.2, rfl, ?_⟩
            rw [hcopy]
            exact hkeeps.copyAt _ _ _ _ hready

end Keeps

end BufWriterInner

end Inel.Io
