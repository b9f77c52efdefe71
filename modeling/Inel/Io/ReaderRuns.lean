import Inel.Io.BufReader
import Inel.Io.WriterRuns

/-!
# What readers pass on

A reader is polled for its buffer or for a copy of it, and told what was consumed.
A `BufReader` may be made a `FixedBufReader` on the way. Whatever its reads answer,
the bytes they delivered are taken in order, each once.
-/

namespace Inel.Io

open Inel.Reactor (Panic OsError)
open Transitions

/-- A group reader's `shared` are the buffers it gave to its set. -/
inductive Reader
  | stable (r : BufReaderInner (List UInt8) BoxBuf BoxBuf Unit)
  | fixed (r : BufReaderInner (List UInt8) Fixed Fixed Unit)
  | group (r : BufReaderInner (List UInt8) (Option BoxBuf) Unit (List BoxBuf))
deriving DecidableEq, Repr

def deliverBytes {B : Type} [Bytes B] (source : List UInt8) (buffer : B) (n : Nat) :
    List UInt8 :=
  source ++ (stableSlice buffer).take n

/-- What comes of a read: the kernel wrote `bytes` to the buffer it was given, or to
one that it picked from a set. -/
inductive Arrival
  | pending
  | done (bytes : Option BoxBuf) (result : Except OsError Nat)
deriving Repr

namespace Arrival

/-- The buffer of the read comes back. -/
def lent {B : Type} [StableBufferMut B] : Arrival → B → ReadAnswer B
  | .pending, _ => .pending
  | .done bytes result, fut => .done (copyAt fut 0 (bytes.getD [])) result

/-- A buffer of the set comes, or none. -/
def picked : Arrival → Unit → ReadAnswer (Option BoxBuf)
  | .pending, _ => .pending
  | .done bytes result, _ => .done bytes result

end Arrival

namespace Reader

def ownedAdapter : BufReaderAdapter (List UInt8) BoxBuf BoxBuf Unit := .plain deliverBytes

def fixedAdapter : BufReaderAdapter (List UInt8) Fixed Fixed Unit := .plain deliverBytes

/-- What becomes of a buffer in the set changes no byte a read delivers. -/
def groupAdapter : BufReaderAdapter (List UInt8) (Option BoxBuf) Unit (List BoxBuf) :=
  .group deliverBytes () List.cons id

def withCapacity (capacity : Nat) : Reader := .stable (.new (zeroed capacity) [] 0 0 ())

def supplyTo : Reader := .group (.new none [] 0 0 [])

def delivered : Reader → List UInt8
  | .stable r => r.source
  | .fixed r => r.source
  | .group r => r.source

def unread : Reader → List UInt8
  | .stable r => r.unread
  | .fixed r => r.unread
  | .group r => r.unread

def pos? : Reader → Option Nat
  | .stable r => r.pos?
  | .fixed r => r.pos?
  | .group r => r.pos?

def call {α : Type} (arrival : Arrival)
    (run : ∀ {B F P : Type} [Bytes B], BufReaderAdapter (List UInt8) B F P →
      (F → ReadAnswer B) → BufReaderInner (List UInt8) B F P →
      Except Panic (α × BufReaderInner (List UInt8) B F P)) :
    Reader → Except Panic (α × Reader)
  | .stable r => do
      let (value, r) ← run ownedAdapter arrival.lent r
      return (value, .stable r)
  | .fixed r => do
      let (value, r) ← run fixedAdapter arrival.lent r
      return (value, .fixed r)
  | .group r => do
      let (value, r) ← run groupAdapter arrival.picked r
      return (value, .group r)

def pollFillBuf (arrival : Arrival) : Reader → Except Panic (Poll (List UInt8) × Reader) :=
  call arrival fun adapter answer r => r.pollFillBuf adapter answer

def pollRead (len : Nat) (arrival : Arrival) :
    Reader → Except Panic (Poll (List UInt8) × Reader) :=
  call arrival fun adapter answer r => r.pollRead adapter len answer

def consume (amt : Nat) : Reader → Reader
  | .stable r => .stable (r.consume ownedAdapter amt)
  | .fixed r => .fixed (r.consume fixedAdapter amt)
  | .group r => .group (r.consume groupAdapter amt)

/-- `slot` is the slot the buffer was registered in, if it could be. -/
def fix (slot : Option UInt32) : Reader → Except FixError Reader
  | .stable r =>
      match r.intoRawParts, slot with
      | (source, some (buffer, pos, filled)), some slot =>
          .ok (.fixed (.new ⟨buffer, slot⟩ source pos filled ()))
      | (_, some _), none => .error .register
      | (_, none), _ => .error (.other "BufReader was in use")
  | reader => .ok reader

/-- A read delivers no more than its buffer holds. -/
def fits (reader : Reader) : Arrival → Bool
  | .done bytes (.ok n) => n < 2 ^ 64 && match reader with
      | .stable r => (r.future? ownedAdapter).all fun fut => decide (n ≤ size fut)
      | .fixed r => (r.future? fixedAdapter).all fun fut => decide (n ≤ size fut)
      | .group _ => n ≤ size bytes
  | _ => true

end Reader

/-! ## Runs -/

/-- A reader and the bytes that were taken from it. -/
structure ReaderRun where
  reader : Reader
  taken : List UInt8
deriving DecidableEq, Repr

inductive ReaderMove
  | pollFillBuf (arrival : Arrival)
  | consume (amt : Nat)
  | pollRead (len : Nat) (arrival : Arrival)
  | fix (slot : Option UInt32)
deriving Repr

namespace ReaderRun

def exec (s : ReaderRun) : ReaderMove → Except Ended ReaderRun
  | .pollFillBuf arrival =>
      match s.reader.pollFillBuf arrival with
      | .ok (_, reader) => .ok { s with reader := reader }
      | .error panic => .error (.panic panic)
  | .consume amt => .ok ⟨s.reader.consume amt, s.taken ++ s.reader.unread.take amt⟩
  | .pollRead len arrival =>
      match s.reader.pollRead len arrival with
      | .ok (poll, reader) => .ok ⟨reader, s.taken ++ BufReaderInner.copied poll⟩
      | .error panic => .error (.panic panic)
  | .fix slot =>
      match s.reader.fix slot with
      | .ok reader => .ok { s with reader := reader }
      | .error err => .error (.unfixed err)

/-- Amounts do not carry the position past the largest one. -/
def permits (s : ReaderRun) : ReaderMove → Bool
  | .pollFillBuf arrival => s.reader.fits arrival
  | .consume amt => s.reader.pos?.all fun pos => decide (pos + amt < 2 ^ 64)
  | .pollRead _ arrival => s.reader.fits arrival
  | .fix _ => true

def machine : Machine ReaderRun ReaderMove Ended where
  init s := (∃ capacity, s = ⟨.withCapacity capacity, []⟩) ∨ s = ⟨.supplyTo, []⟩
  permits s move := s.permits move = true
  exec := exec

end ReaderRun

/-! ## What the adapters do -/

theorem readerPlain_lawful {B : Type} [Bytes B] :
    (BufReaderAdapter.plain (deliverBytes (B := B))).Lawful where
  delivered _ _ _ := rfl
  range _ _ := rfl
  inner _ _ _ := rfl

theorem readerGroup_lawful : Reader.groupAdapter.Lawful where
  delivered _ _ _ := rfl
  range view set := by
    simp only [Reader.groupAdapter, BufReaderAdapter.group]
    split
    · split <;> rfl
    · rfl
  inner view set h := by
    simp [Reader.groupAdapter, BufReaderAdapter.group, h]

namespace Reader

variable {reader : Reader} {arrival : Arrival}

def Inv : Reader → Prop
  | .stable r => r.Inv
  | .fixed r => r.Inv
  | .group r => r.Inv

theorem fits_lent {B : Type} [Bytes B] {fut : B}
    (h : ∀ bytes n, arrival = .done bytes (.ok n) → n < 2 ^ 64 ∧ n ≤ size fut) :
    BufReaderInner.Fits (arrival.lent fut) := by
  intro buffer n hanswer
  cases arrival with
  | pending => simp [Arrival.lent] at hanswer
  | done bytes result =>
      obtain ⟨rfl, rfl⟩ := ReadAnswer.done.inj hanswer
      obtain ⟨hlt, hle⟩ := h bytes n rfl
      exact ⟨by rwa [size_copyAt], hlt⟩

theorem fits_spec (h : reader.fits arrival = true) {bytes : Option BoxBuf} {n : Nat}
    (harrival : arrival = .done bytes (.ok n)) :
    n < 2 ^ 64 ∧ match reader with
      | .stable r => ∀ fut, r.future? ownedAdapter = some fut → n ≤ size fut
      | .fixed r => ∀ fut, r.future? fixedAdapter = some fut → n ≤ size fut
      | .group _ => n ≤ size bytes := by
  subst harrival
  simp only [fits, Bool.and_eq_true, decide_eq_true_eq] at h
  refine ⟨h.1, ?_⟩
  cases reader with
  | stable r =>
      intro fut hfut
      simpa [hfut] using h.2
  | fixed r =>
      intro fut hfut
      simpa [hfut] using h.2
  | group r => simpa using h.2

theorem call_spec {α : Type} {Q : α → Reader → Reader → Prop}
    {run : ∀ {B F P : Type} [Bytes B], BufReaderAdapter (List UInt8) B F P →
      (F → ReadAnswer B) → BufReaderInner (List UInt8) B F P →
      Except Panic (α × BufReaderInner (List UInt8) B F P)}
    (hrun : ∀ {B F P : Type} [Bytes B] {adapter : BufReaderAdapter (List UInt8) B F P}
      {answer : F → ReadAnswer B} {r : BufReaderInner (List UInt8) B F P}
      (wrap : BufReaderInner (List UInt8) B F P → Reader),
      (∀ r, (wrap r).unread = r.unread ∧ (wrap r).delivered = r.source) →
      adapter.Lawful → r.Inv →
      (∀ fut, r.future? adapter = some fut → BufReaderInner.Fits (answer fut)) →
      ∃ value r', run adapter answer r = .ok (value, r') ∧ r'.Inv ∧ Q value (wrap r) (wrap r'))
    (h : reader.Inv) (hfits : reader.fits arrival = true) :
    ∃ value reader', reader.call arrival run = .ok (value, reader') ∧ reader'.Inv ∧
      Q value reader reader' := by
  cases reader with
  | stable r =>
      have hlent : ∀ fut, r.future? ownedAdapter = some fut →
          BufReaderInner.Fits (arrival.lent fut) :=
        fun fut hfut => fits_lent fun bytes n harrival =>
          ⟨(fits_spec hfits harrival).1, (fits_spec hfits harrival).2 fut hfut⟩
      obtain ⟨value, r', hok, hinv, hq⟩ :=
        hrun Reader.stable (fun _ => ⟨rfl, rfl⟩) readerPlain_lawful h hlent
      refine ⟨value, .stable r', ?_, hinv, hq⟩
      simp only [call, ownedAdapter, hok, bind, Except.bind, pure, Except.pure]
  | fixed r =>
      have hlent : ∀ fut, r.future? fixedAdapter = some fut →
          BufReaderInner.Fits (arrival.lent fut) :=
        fun fut hfut => fits_lent fun bytes n harrival =>
          ⟨(fits_spec hfits harrival).1, (fits_spec hfits harrival).2 fut hfut⟩
      obtain ⟨value, r', hok, hinv, hq⟩ :=
        hrun Reader.fixed (fun _ => ⟨rfl, rfl⟩) readerPlain_lawful h hlent
      refine ⟨value, .fixed r', ?_, hinv, hq⟩
      simp only [call, fixedAdapter, hok, bind, Except.bind, pure, Except.pure]
  | group r =>
      have hpicked : ∀ fut, r.future? groupAdapter = some fut →
          BufReaderInner.Fits (arrival.picked fut) := by
        intro fut hfut buffer n hanswer
        cases arrival with
        | pending => simp [Arrival.picked] at hanswer
        | done bytes result =>
            obtain ⟨rfl, rfl⟩ := ReadAnswer.done.inj hanswer
            obtain ⟨hlt, hle⟩ := fits_spec hfits rfl
            exact ⟨hle, hlt⟩
      obtain ⟨value, r', hok, hinv, hq⟩ :=
        hrun Reader.group (fun _ => ⟨rfl, rfl⟩) readerGroup_lawful h hpicked
      refine ⟨value, .group r', ?_, hinv, hq⟩
      simp only [call, hok, bind, Except.bind, pure, Except.pure]

/-- A fill delivers bytes behind those unread, and only when there are none. -/
theorem pollFillBuf_spec (h : reader.Inv) (hfits : reader.fits arrival = true) :
    ∃ poll reader', reader.pollFillBuf arrival = .ok (poll, reader') ∧ reader'.Inv ∧
      (∃ bytes, reader'.delivered = reader.delivered ++ bytes ∧
        reader'.unread = reader.unread ++ bytes) ∧
      (reader.unread ≠ [] → poll = .ready (.ok reader.unread) ∧ reader' = reader) := by
  refine call_spec (Q := fun (poll : Poll (List UInt8)) (before after : Reader) =>
    (∃ bytes, after.delivered = before.delivered ++ bytes ∧
      after.unread = before.unread ++ bytes) ∧
    (before.unread ≠ [] → poll = .ready (.ok before.unread) ∧ after = before)) ?_ h hfits
  intro B F P _ adapter answer r wrap hwrap hadapter hinv hfits
  obtain ⟨poll, r', hok, hinv', hfresh, hkept, -⟩ := r.pollFillBuf_spec hadapter hinv hfits
  refine ⟨poll, r', hok, hinv', ?_⟩
  rw [(hwrap r).1, (hwrap r).2, (hwrap r').1, (hwrap r').2]
  exact ⟨hfresh, fun hne => ⟨(hkept hne).1, congrArg wrap (hkept hne).2⟩⟩

theorem pollRead_spec (h : reader.Inv) (hfits : reader.fits arrival = true) (len : Nat) :
    ∃ poll reader', reader.pollRead len arrival = .ok (poll, reader') ∧ reader'.Inv ∧
      ∃ bytes, reader'.delivered = reader.delivered ++ bytes ∧
        BufReaderInner.copied poll ++ reader'.unread = reader.unread ++ bytes := by
  refine call_spec (Q := fun (poll : Poll (List UInt8)) (before after : Reader) =>
    ∃ bytes, after.delivered = before.delivered ++ bytes ∧
      BufReaderInner.copied poll ++ after.unread = before.unread ++ bytes) ?_ h hfits
  intro B F P _ adapter answer r wrap hwrap hadapter hinv hfits
  obtain ⟨poll, r', hok, hinv', hread⟩ := r.pollRead_spec hadapter hinv hfits len
  refine ⟨poll, r', hok, hinv', ?_⟩
  rw [(hwrap r).1, (hwrap r).2, (hwrap r').1, (hwrap r').2]
  exact hread

theorem amt_of_pos {B F P : Type} [Bytes B] {r : BufReaderInner (List UInt8) B F P} {amt : Nat}
    (h : r.pos?.all (fun pos => decide (pos + amt < 2 ^ 64)) = true) (view : View B Range)
    (hview : r.state = .ready view) : view.range.start + amt < 2 ^ 64 := by
  simpa [BufReaderInner.pos?, hview] using h

theorem consume_spec {amt : Nat} (h : reader.Inv)
    (hamt : reader.pos?.all (fun pos => decide (pos + amt < 2 ^ 64)) = true) :
    (reader.consume amt).Inv ∧ (reader.consume amt).delivered = reader.delivered ∧
      (reader.consume amt).unread = reader.unread.drop amt := by
  cases reader with
  | stable r => exact r.consume_spec readerPlain_lawful h (amt_of_pos hamt)
  | fixed r => exact r.consume_spec readerPlain_lawful h (amt_of_pos hamt)
  | group r => exact r.consume_spec readerGroup_lawful h (amt_of_pos hamt)

/-- Registering the buffer moves it with what is unread in it. -/
theorem fix_spec {slot : Option UInt32} {reader' : Reader} (h : reader.Inv)
    (hok : reader.fix slot = .ok reader') :
    reader'.Inv ∧ reader'.delivered = reader.delivered ∧ reader'.unread = reader.unread := by
  cases reader with
  | fixed r =>
      obtain rfl := Except.ok.inj hok
      exact ⟨h, rfl, rfl⟩
  | group r =>
      obtain rfl := Except.ok.inj hok
      exact ⟨h, rfl, rfl⟩
  | stable r =>
      cases hstate : r.state with
      | empty => exact absurd hstate h.nonempty
      | pending fut => simp [fix, BufReaderInner.intoRawParts, hstate] at hok
      | ready view =>
          cases slot with
          | none => simp [fix, BufReaderInner.intoRawParts, hstate] at hok
          | some slot =>
              simp only [fix, BufReaderInner.intoRawParts, hstate] at hok
              obtain rfl := Except.ok.inj hok
              obtain ⟨hordered, hfits, hinside⟩ := h.within view hstate
              refine ⟨⟨by simp [BufReaderInner.new], ?_⟩, rfl, ?_⟩
              · intro view' hview'
                obtain rfl := BufReaderState.ready.inj hview'
                exact ⟨hordered, hfits, hinside⟩
              · have hunread : r.unread = view.stableSlice := by
                  rw [BufReaderInner.unread, hstate]
                show View.stableSlice _ = r.unread
                rw [hunread, View.stableSlice_range, View.stableSlice_range]
                rfl

/-- What is ready lies in its buffer, unless all of it was consumed. -/
def InBounds : Reader → Prop
  | .stable r => ∀ view, r.state = .ready view → BufReaderInner.Within view
  | .fixed r => ∀ view, r.state = .ready view → BufReaderInner.Within view
  | .group r => ∀ view, r.state = .ready view → BufReaderInner.Within view

theorem Inv.inBounds (h : reader.Inv) : reader.InBounds := by
  cases reader with
  | stable r => exact h.within
  | fixed r => exact h.within
  | group r => exact h.within

end Reader

namespace ReaderRun

variable {s s' : ReaderRun}

structure Inv (s : ReaderRun) : Prop where
  reader : s.reader.Inv
  total : s.taken ++ s.reader.unread = s.reader.delivered

theorem Inv.init (h : machine.init s) : s.Inv := by
  have hwithin : ∀ {B : Type} [Bytes B] (buffer : B),
      BufReaderInner.Within ⟨buffer, (⟨0, 0⟩ : Range)⟩ := by
    intro B _ buffer
    refine ⟨Nat.le_refl _, ?_, by simp [Range.isEmpty]⟩
    show 0 < 2 ^ 64
    decide
  rcases h with ⟨capacity, rfl⟩ | rfl
  · refine ⟨⟨by simp [BufReaderInner.new], ?_⟩, rfl⟩
    intro view hview
    obtain rfl := BufReaderState.ready.inj hview
    exact hwithin _
  · refine ⟨⟨by simp [BufReaderInner.new], ?_⟩, rfl⟩
    intro view hview
    obtain rfl := BufReaderState.ready.inj hview
    exact hwithin _

theorem Inv.step {move : ReaderMove} (h : s.Inv) (hpermits : s.permits move = true)
    (hok : s.exec move = .ok s') : s'.Inv := by
  have htotal := h.total
  cases move with
  | pollFillBuf arrival =>
      obtain ⟨poll, reader', hfill, hinv, ⟨bytes, hdelivered, hunread⟩, -⟩ :=
        Reader.pollFillBuf_spec h.reader hpermits
      simp only [exec, hfill] at hok
      obtain rfl := Except.ok.inj hok
      refine ⟨hinv, ?_⟩
      dsimp only
      rw [hunread, hdelivered, ← htotal, List.append_assoc]
  | consume amt =>
      obtain ⟨hinv, hdelivered, hunread⟩ := Reader.consume_spec h.reader hpermits
      obtain rfl := Except.ok.inj hok
      refine ⟨hinv, ?_⟩
      dsimp only
      rw [hunread, hdelivered, List.append_assoc, List.take_append_drop, htotal]
  | pollRead len arrival =>
      obtain ⟨poll, reader', hread, hinv, bytes, hdelivered, hunread⟩ :=
        Reader.pollRead_spec h.reader hpermits len
      simp only [exec, hread] at hok
      obtain rfl := Except.ok.inj hok
      refine ⟨hinv, ?_⟩
      dsimp only
      rw [List.append_assoc, hunread, hdelivered, ← htotal, List.append_assoc]
  | fix slot =>
      simp only [exec] at hok
      split at hok
      · next reader' hfix =>
          obtain rfl := Except.ok.inj hok
          obtain ⟨hinv, hdelivered, hunread⟩ := Reader.fix_spec h.reader hfix
          exact ⟨hinv, by dsimp only; rw [hunread, hdelivered, htotal]⟩
      · simp at hok

theorem Inv.of_reach (h : Reach machine Any s) : s.Inv :=
  h.invariant (fun _ hinit => .init hinit) fun _ _ _ hinv hpermits _ hok => hinv.step hpermits hok

/-- What was taken and what is unread is what the reads delivered; the next call
returns, and starts no read while something is unread. -/
theorem reads_are_passed_on (h : Reach machine Any s) :
    s.taken ++ s.reader.unread = s.reader.delivered ∧ s.reader.InBounds ∧
      (∀ arrival, s.permits (.pollFillBuf arrival) = true →
        ∃ poll reader', s.reader.pollFillBuf arrival = .ok (poll, reader') ∧
          (s.reader.unread ≠ [] →
            poll = .ready (.ok s.reader.unread) ∧ reader' = s.reader)) ∧
      ∀ len arrival, s.permits (.pollRead len arrival) = true →
        ∃ poll reader', s.reader.pollRead len arrival = .ok (poll, reader') := by
  have hinv := Inv.of_reach h
  refine ⟨hinv.total, hinv.reader.inBounds, fun arrival hpermits => ?_,
    fun len arrival hpermits => ?_⟩
  · obtain ⟨poll, reader', hok, -, -, hkept⟩ := Reader.pollFillBuf_spec hinv.reader hpermits
    exact ⟨poll, reader', hok, hkept⟩
  · obtain ⟨poll, reader', hok, -⟩ := Reader.pollRead_spec hinv.reader hpermits len
    exact ⟨poll, reader', hok⟩

/-- A group reader that is told of more than it has unread. -/
theorem consumed_beyond_the_end :
    ∃ s : ReaderRun, s.taken ++ s.reader.unread = s.reader.delivered ∧
      s.taken = [1, 2, 3] ∧ s.reader.unread = [4] := by
  obtain ⟨s, hreach, htest⟩ := Reach.of_replay (M := machine) permits
    (fun s move h => ⟨h, trivial⟩) (.start (Or.inr rfl))
    [.pollFillBuf .pending, .consume 7, .pollFillBuf (.done (some [1, 2, 0]) (.ok 2)),
      .pollRead 1 .pending, .consume 5, .consume 1, .pollRead 4 (.done none (.error ⟨5⟩)),
      .pollRead 1 (.done (some [3, 4]) (.ok 2))]
    (fun s => s.taken == [1, 2, 3] && s.reader.unread == [4]) rfl
  simp only [Bool.and_eq_true, beq_iff_eq] at htest
  exact ⟨s, (reads_are_passed_on hreach).1, htest⟩

end ReaderRun

end Inel.Io
