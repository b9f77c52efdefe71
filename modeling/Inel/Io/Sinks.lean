import Inel.Io.BufReader

/-!
# Other sinks and sources

What a writer does besides writing does not depend on its sink, nor what a reader does
on its source. So a sink that can be computed from the bytes it took may stand for
them, and a source that can be computed from the bytes it delivered.
-/

namespace Inel.Io

open Inel.Reactor (Panic OsError)

/-- A function of the state that a call leaves. -/
def mapState {ε α σ σ' : Type} (f : σ → σ') (ran : Except ε (α × σ)) : Except ε (α × σ') :=
  ran.map (Prod.map id f)

theorem mapState_eq_ok {ε α σ σ' : Type} {f : σ → σ'} {ran : Except ε (α × σ)} {value : α}
    {s' : σ'} (h : mapState f ran = .ok (value, s')) : ∃ s, ran = .ok (value, s) ∧ s' = f s := by
  cases ran with
  | error e => simp [mapState, Except.map] at h
  | ok pair =>
      obtain ⟨rfl, rfl⟩ := Prod.mk.inj (Except.ok.inj h)
      exact ⟨pair.2, rfl, rfl⟩

/-! ## Writers -/

/-- The adapter does to `f sink` what the other one does to the sink. -/
structure BufWriterAdapter.Follows {S S' B P : Type} (f : S → S')
    (adapter : BufWriterAdapter S B P) (adapter' : BufWriterAdapter S' B P) : Prop where
  wrote : ∀ sink view n, adapter'.wrote (f sink) view n = f (adapter.wrote sink view n)
  preWrite : adapter'.preWrite = adapter.preWrite
  postFlush : adapter'.postFlush = adapter.postFlush

namespace BufWriterInner

variable {S S' B P : Type} {f : S → S'} {adapter : BufWriterAdapter S B P}
  {adapter' : BufWriterAdapter S' B P} {answer : Poll Nat}

def onto (f : S → S') (w : BufWriterInner S B P) : BufWriterInner S' B P :=
  ⟨w.state, f w.sink, w.shared⟩

theorem pollFuture_onto (h : adapter.Follows f adapter') (w : BufWriterInner S B P)
    (view : View B RangeTo) :
    (w.onto f).pollFuture adapter' view answer =
      mapState (onto f) (w.pollFuture adapter view answer) := by
  cases answer with
  | pending => rfl
  | ready result =>
      cases result with
      | error err => rfl
      | ok wrote =>
          by_cases hall : wrote = view.range.stop
          · subst hall
            rw [pollFuture_whole, pollFuture_whole]
            simp [flushed, onto, mapState, Except.map, h.wrote, h.postFlush]
          · simp [pollFuture, hall, mapState, Except.map]

theorem pollFlush_onto (h : adapter.Follows f adapter') (w : BufWriterInner S B P) :
    (w.onto f).pollFlush adapter' answer = mapState (onto f) (w.pollFlush adapter answer) := by
  cases hstate : w.state with
  | empty => simp [pollFlush, onto, hstate, mapState, Except.map]
  | pending view =>
      simp only [pollFlush, hstate, show (w.onto f).state = .pending view from hstate]
      exact pollFuture_onto h w view
  | ready view =>
      simp only [pollFlush, hstate, show (w.onto f).state = .ready view from hstate]
      split
      · rfl
      · exact pollFuture_onto h w view

theorem pollFlushAndWrite_onto (h : adapter.Follows f adapter') (w : BufWriterInner S B P)
    {write : BufWriterInner S B P → Except Panic (Poll Nat × BufWriterInner S B P)}
    {write' : BufWriterInner S' B P → Except Panic (Poll Nat × BufWriterInner S' B P)}
    (hwrite : ∀ w, write' (w.onto f) = mapState (onto f) (write w)) :
    (w.onto f).pollFlushAndWrite adapter' answer write' =
      mapState (onto f) (w.pollFlushAndWrite adapter answer write) := by
  simp only [pollFlushAndWrite, pollFlush_onto h]
  cases w.pollFlush adapter answer with
  | error panic => rfl
  | ok flushed =>
      obtain ⟨poll, w₁⟩ := flushed
      cases poll with
      | pending => rfl
      | ready result =>
          cases result with
          | error err => rfl
          | ok done => exact hwrite w₁

theorem pollWrite_of_ready [StableBufferMut B] {data : List UInt8} {depth : Nat}
    {w : BufWriterInner S B P} {view : View B RangeTo} {inner : B} {shared : P}
    (hstate : w.state = .ready view)
    (hpre : adapter.preWrite view.inner w.shared = (inner, shared)) :
    pollWrite adapter data answer (depth + 1) w =
      if View.spareCapacity ⟨inner, view.range⟩ = 0 then
        pollFlushAndWrite adapter ⟨.ready ⟨inner, view.range⟩, w.sink, shared⟩ answer
          (pollWrite adapter data answer depth)
      else do
        let (wrote, view) ← View.fill ⟨inner, view.range⟩
          (data.take (min (View.spareCapacity ⟨inner, view.range⟩) data.length))
        return (.ready (.ok wrote), ⟨.ready view, w.sink, shared⟩) := by
  simp only [pollWrite, hstate, hpre]

theorem pollWrite_onto [StableBufferMut B] (h : adapter.Follows f adapter')
    (data : List UInt8) (depth : Nat) (w : BufWriterInner S B P) :
    pollWrite adapter' data answer depth (w.onto f) =
      mapState (onto f) (pollWrite adapter data answer depth w) := by
  induction depth generalizing w with
  | zero => rfl
  | succ depth ih =>
      cases hstate : w.state with
      | empty => simp [pollWrite, onto, hstate, mapState, Except.map]
      | pending view =>
          simp only [pollWrite, hstate, show (w.onto f).state = .pending view from hstate]
          exact pollFlushAndWrite_onto h w ih
      | ready view =>
          cases hpre : adapter.preWrite view.inner w.shared with
          | mk inner shared =>
              have hpre' : adapter'.preWrite view.inner (w.onto f).shared = (inner, shared) := by
                rw [h.preWrite]
                exact hpre
              rw [pollWrite_of_ready hstate hpre, pollWrite_of_ready (w := w.onto f) hstate hpre']
              split
              · exact pollFlushAndWrite_onto h ⟨.ready ⟨inner, view.range⟩, w.sink, shared⟩ ih
              · cases View.fill ⟨inner, view.range⟩ (data.take
                  (min (View.spareCapacity ⟨inner, view.range⟩) data.length)) with
                | error panic => rfl
                | ok filled => rfl

end BufWriterInner

/-! ## Readers -/

/-- The adapters differ in what a read does to the source only. -/
structure BufReaderAdapter.Follows {S S' B F P : Type} (adapter : BufReaderAdapter S B F P)
    (adapter' : BufReaderAdapter S' B F P) : Prop where
  createFuture : adapter'.createFuture = adapter.createFuture
  postConsume : adapter'.postConsume = adapter.postConsume

namespace BufReaderInner

variable {S S' B F P : Type} {f : S → S'} {adapter : BufReaderAdapter S B F P}
  {adapter' : BufReaderAdapter S' B F P} {answer : F → ReadAnswer B}

def onto (f : S → S') (r : BufReaderInner S B F P) : BufReaderInner S' B F P :=
  ⟨f r.source, r.state, r.shared⟩

/-- What the read that is polled does to `f source` is `f` of what it does to the source. -/
def Mirrors (f : S → S') (adapter : BufReaderAdapter S B F P)
    (adapter' : BufReaderAdapter S' B F P) (source : S) (answer : ReadAnswer B) : Prop :=
  ∀ buffer n, answer = .done buffer (.ok n) →
    adapter'.delivered (f source) buffer n = f (adapter.delivered source buffer n)

theorem pollFuture_onto (r : BufReaderInner S B F P) {fut : F}
    (h : Mirrors f adapter adapter' r.source (answer fut)) :
    (r.onto f).pollFuture adapter' fut answer =
      Prod.map id (onto f) (r.pollFuture adapter fut answer) := by
  cases hanswer : answer fut with
  | pending => simp [pollFuture, hanswer, onto]
  | done buffer result =>
      cases result with
      | error err => simp [pollFuture, hanswer, onto]
      | ok filled => simp [pollFuture, hanswer, onto, h buffer filled hanswer]

theorem consume_onto (hadapter : adapter.Follows adapter') (r : BufReaderInner S B F P)
    (amt : Nat) : (r.onto f).consume adapter' amt = (r.consume adapter amt).onto f := by
  cases hstate : r.state with
  | ready view => simp [consume, onto, hstate, hadapter.postConsume]
  | _ => simp [consume, onto, hstate]

variable {f : List UInt8 → S'} {adapter : BufReaderAdapter (List UInt8) B F P}

theorem pollFill_onto (hadapter : adapter.Follows adapter')
    (r : BufReaderInner (List UInt8) B F P)
    (h : ∀ fut, r.future? adapter = some fut → Mirrors f adapter adapter' r.source (answer fut)) :
    (r.onto f).pollFill adapter' answer = mapState (onto f) (r.pollFill adapter answer) := by
  cases hstate : r.state with
  | empty => simp [pollFill, onto, hstate, mapState, Except.map]
  | pending fut =>
      have hmirrors := h fut (by rw [future?, hstate])
      simp only [pollFill, hstate, show (r.onto f).state = .pending fut from hstate]
      rw [pollFuture_onto r hmirrors]
      rfl
  | ready view =>
      have hmirrors := h _ (by rw [future?, hstate])
      simp only [pollFill, hstate, show (r.onto f).state = .ready view from hstate,
        hadapter.createFuture]
      split
      · have hpolled := pollFuture_onto
          { r with shared := (adapter.createFuture view.inner r.shared).2 } hmirrors
        exact congrArg Except.ok hpolled
      · rfl

variable [Bytes B]

theorem pollFillBuf_onto (hadapter : adapter.Follows adapter')
    (r : BufReaderInner (List UInt8) B F P)
    (h : ∀ fut, r.future? adapter = some fut → Mirrors f adapter adapter' r.source (answer fut)) :
    (r.onto f).pollFillBuf adapter' answer =
      mapState (onto f) (r.pollFillBuf adapter answer) := by
  simp only [pollFillBuf, pollFill_onto hadapter r h]
  cases r.pollFill adapter answer with
  | error panic => rfl
  | ok filled =>
      obtain ⟨poll, r'⟩ := filled
      cases poll with
      | pending => rfl
      | ready result =>
          cases result with
          | error err => rfl
          | ok done =>
              have hbuffer : (r'.onto f).buffer = r'.buffer := rfl
              simp only [mapState, Except.map, Prod.map, bind, Except.bind, id, hbuffer]
              cases r'.buffer with
              | error panic => rfl
              | ok slice => rfl

theorem pollRead_onto (hadapter : adapter.Follows adapter')
    (r : BufReaderInner (List UInt8) B F P) (len : Nat)
    (h : ∀ fut, r.future? adapter = some fut → Mirrors f adapter adapter' r.source (answer fut)) :
    (r.onto f).pollRead adapter' len answer =
      mapState (onto f) (r.pollRead adapter len answer) := by
  simp only [pollRead, pollFillBuf_onto hadapter r h]
  cases r.pollFillBuf adapter answer with
  | error panic => rfl
  | ok filled =>
      obtain ⟨poll, r'⟩ := filled
      cases poll with
      | pending => rfl
      | ready result =>
          cases result with
          | error err => rfl
          | ok slice =>
              have hconsume := consume_onto (f := f) hadapter r'
                (slice.take (min slice.length len)).length
              exact congrArg (fun r => Except.ok (Poll.ready (.ok _), r)) hconsume

end BufReaderInner

end Inel.Io
