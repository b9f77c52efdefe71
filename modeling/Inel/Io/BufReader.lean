import Inel.Io.BufWriter

/-!
# Buffered readers

A reader keeps what its last read delivered in a buffer, with a range for what was
not consumed yet. When the range is empty the buffer goes into the next read.
What the readers of the three kinds do differently is in their adapters.
-/

namespace Inel.Io

open Inel.Reactor (Panic OsError)

/-- What polling a read gives: the buffer comes back with the result. -/
inductive ReadAnswer (B : Type)
  | pending
  | done (buffer : B) (result : Except OsError Nat)
deriving Repr

inductive BufReaderState (B F : Type)
  | empty
  | pending (fut : F)
  | ready (view : View B Range)
deriving DecidableEq, Repr

structure BufReaderInner (S B F P : Type) where
  source : S
  state : BufReaderState B F
  shared : P
deriving DecidableEq, Repr

/-- `delivered` is what a read of so many bytes into a buffer does to the source. -/
structure BufReaderAdapter (S B F P : Type) where
  delivered : S → B → Nat → S
  createFuture : B → P → F × P
  postConsume : View B Range → P → View B Range × P

namespace BufReaderInner

variable {S B F P : Type}

def new (buffer : B) (source : S) (pos filled : Nat) (shared : P) : BufReaderInner S B F P :=
  ⟨source, .ready ⟨buffer, ⟨pos, filled⟩⟩, shared⟩

def intoRawParts (r : BufReaderInner S B F P) : S × Option (B × Nat × Nat) :=
  match r.state with
  | .ready view => (r.source, some (view.inner, view.range.start, view.range.stop))
  | _ => (r.source, none)

/-- Polls the read in flight; `answer` is what a read answers. -/
def pollFuture (adapter : BufReaderAdapter S B F P) (r : BufReaderInner S B F P) (fut : F)
    (answer : F → ReadAnswer B) : Poll Unit × BufReaderInner S B F P :=
  match answer fut with
  | .pending => (.pending, { r with state := .pending fut })
  | .done buffer (.ok filled) =>
      (.ready (.ok ()), { r with
        source := adapter.delivered r.source buffer filled,
        state := .ready ⟨buffer, ⟨0, filled⟩⟩ })
  | .done buffer (.error err) =>
      (.ready (.error err), { r with state := .ready ⟨buffer, ⟨0, 0⟩⟩ })

/-- What `poll_fill_buf` does before it looks into the buffer. -/
def pollFill (adapter : BufReaderAdapter S B F P) (r : BufReaderInner S B F P)
    (answer : F → ReadAnswer B) : Except Panic (Poll Unit × BufReaderInner S B F P) :=
  match r.state with
  | .empty => .error (.unreachable "")
  | .pending fut => .ok (r.pollFuture adapter fut answer)
  | .ready view =>
      if view.range.isEmpty then
        let (fut, shared) := adapter.createFuture view.inner r.shared
        .ok ({ r with shared := shared }.pollFuture adapter fut answer)
      else .ok (.ready (.ok ()), r)

def consume (adapter : BufReaderAdapter S B F P) (r : BufReaderInner S B F P) (amt : Nat) :
    BufReaderInner S B F P :=
  match r.state with
  | .ready view =>
      let (view, shared) := adapter.postConsume (view.consume amt) r.shared
      { r with state := .ready view, shared := shared }
  | _ => r

def pos? (r : BufReaderInner S B F P) : Option Nat :=
  match r.state with
  | .ready view => some view.range.start
  | _ => none

variable [Bytes B]

def buffer (r : BufReaderInner S B F P) : Except Panic (List UInt8) :=
  match r.state with
  | .ready view => .ok view.stableSlice
  | _ => .error (.unreachable "")

def pollFillBuf (adapter : BufReaderAdapter S B F P) (answer : F → ReadAnswer B)
    (r : BufReaderInner S B F P) : Except Panic (Poll (List UInt8) × BufReaderInner S B F P) := do
  let (poll, r) ← r.pollFill adapter answer
  match poll with
  | .pending => return (.pending, r)
  | .ready (.error err) => return (.ready (.error err), r)
  | .ready (.ok ()) =>
      let slice ← r.buffer
      return (.ready (.ok slice), r)

/-- `len` is the length of the destination; the bytes copied to it are returned. -/
def pollRead (adapter : BufReaderAdapter S B F P) (len : Nat) (answer : F → ReadAnswer B)
    (r : BufReaderInner S B F P) : Except Panic (Poll (List UInt8) × BufReaderInner S B F P) := do
  let (poll, r) ← r.pollFillBuf adapter answer
  match poll with
  | .ready (.ok slice) =>
      let copied := slice.take (min slice.length len)
      return (.ready (.ok copied), r.consume adapter copied.length)
  | poll => return (poll, r)

end BufReaderInner

/-! ## What a call does -/

/-- The bytes the source delivered are recorded, and a view with something in it is
left alone after a consumption. -/
structure BufReaderAdapter.Lawful {B F P : Type} [Bytes B]
    (adapter : BufReaderAdapter (List UInt8) B F P) : Prop where
  delivered : ∀ source buffer n,
    adapter.delivered source buffer n = source ++ (stableSlice buffer).take n
  range : ∀ view shared, (adapter.postConsume view shared).1.range = view.range
  inner : ∀ view shared, view.range.isEmpty = false →
    (adapter.postConsume view shared).1.inner = view.inner

namespace BufReaderInner

variable {B F P : Type} [Bytes B] {adapter : BufReaderAdapter (List UInt8) B F P}
  {r r' : BufReaderInner (List UInt8) B F P} {answer : F → ReadAnswer B}

/-- The bytes delivered and not yet consumed. -/
def unread (r : BufReaderInner (List UInt8) B F P) : List UInt8 :=
  match r.state with
  | .ready view => view.stableSlice
  | _ => []

/-- A range of 64-bit positions that lies in the buffer, unless it is empty. -/
structure Within (view : View B Range) : Prop where
  ordered : view.range.start ≤ view.range.stop
  fits : view.range.stop < 2 ^ 64
  inside : view.range.isEmpty = false → view.range.stop ≤ size view.inner

/-- The reader holds a buffer or waits for one. -/
structure Inv (r : BufReaderInner (List UInt8) B F P) : Prop where
  nonempty : r.state ≠ .empty
  within : ∀ view, r.state = .ready view → Within view

/-- The read in flight, or the one that would come next. -/
def future? (adapter : BufReaderAdapter (List UInt8) B F P)
    (r : BufReaderInner (List UInt8) B F P) : Option F :=
  match r.state with
  | .empty => none
  | .pending fut => some fut
  | .ready view => some (adapter.createFuture view.inner r.shared).1

/-- A read delivers no more than the buffer holds, and counts in 64 bits. -/
def Fits (answer : ReadAnswer B) : Prop :=
  ∀ buffer n, answer = .done buffer (.ok n) → n ≤ size buffer ∧ n < 2 ^ 64

theorem stableSlice_of_isEmpty {view : View B Range} (h : view.range.isEmpty = true) :
    view.stableSlice = [] := by
  have hle : view.range.stop ≤ view.range.start := by simpa [Range.isEmpty] using h
  rw [View.stableSlice_range, List.drop_of_length_le]
  exact Nat.le_trans (List.length_take_le _ _) hle

/-- What a fill does: it delivers bytes behind those unread, if there were none. -/
structure Filled (r : BufReaderInner (List UInt8) B F P) (poll : Poll Unit)
    (r' : BufReaderInner (List UInt8) B F P) : Prop where
  inv : r'.Inv
  fresh : ∃ bytes, r'.source = r.source ++ bytes ∧ r'.unread = r.unread ++ bytes
  kept : r.unread ≠ [] → poll = .ready (.ok ()) ∧ r' = r
  ready : poll = .ready (.ok ()) → r'.buffer = .ok r'.unread

theorem pollFuture_spec (hadapter : adapter.Lawful) {fut : F} (hfits : Fits (answer fut))
    (hunread : r.unread = []) :
    Filled r (r.pollFuture adapter fut answer).1 (r.pollFuture adapter fut answer).2 := by
  unfold pollFuture
  cases hanswer : answer fut with
  | pending =>
      refine ⟨⟨by simp, by simp⟩, ⟨[], ?_, ?_⟩, fun hne => absurd hunread hne, by simp⟩
      · exact (List.append_nil _).symm
      · rw [hunread]
        rfl
  | done buffer result =>
      cases result with
      | ok filled =>
          refine ⟨⟨by simp, ?_⟩, ⟨(stableSlice buffer).take filled, ?_, ?_⟩,
            fun hne => absurd hunread hne, fun _ => rfl⟩
          · intro view hview
            obtain rfl := BufReaderState.ready.inj hview
            obtain ⟨hle, hlt⟩ := hfits buffer filled hanswer
            exact ⟨Nat.zero_le _, hlt, fun _ => hle⟩
          · exact hadapter.delivered r.source buffer filled
          · rw [hunread]
            exact View.stableSlice_range _
      | error err =>
          have hempty : (⟨buffer, ⟨0, 0⟩⟩ : View B Range).stableSlice = [] :=
            stableSlice_of_isEmpty rfl
          refine ⟨⟨by simp, ?_⟩, ⟨[], ?_, ?_⟩, fun hne => absurd hunread hne, by simp⟩
          · intro view hview
            obtain rfl := BufReaderState.ready.inj hview
            refine ⟨Nat.le_refl _, ?_, by simp [Range.isEmpty]⟩
            show 0 < 2 ^ 64
            decide
          · exact (List.append_nil _).symm
          · rw [hunread]
            exact hempty

/-- Unread bytes stay as they are, and without any the next read comes. -/
theorem pollFill_spec (hadapter : adapter.Lawful) (h : r.Inv)
    (hfits : ∀ fut, r.future? adapter = some fut → Fits (answer fut)) :
    ∃ poll r', r.pollFill adapter answer = .ok (poll, r') ∧ Filled r poll r' := by
  cases hstate : r.state with
  | empty => exact absurd hstate h.nonempty
  | pending fut =>
      have hunread : r.unread = [] := by rw [unread, hstate]
      have hfill : r.pollFill adapter answer = .ok (r.pollFuture adapter fut answer) := by
        rw [pollFill, hstate]
      have hfut : r.future? adapter = some fut := by rw [future?, hstate]
      exact ⟨_, _, hfill, pollFuture_spec hadapter (hfits fut hfut) hunread⟩
  | ready view =>
      have hunread : r.unread = view.stableSlice := by rw [unread, hstate]
      cases hrange : view.range.isEmpty with
      | true =>
          rw [stableSlice_of_isEmpty hrange] at hunread
          have hfill : r.pollFill adapter answer =
              .ok ({ r with shared := (adapter.createFuture view.inner r.shared).2 }.pollFuture
                adapter (adapter.createFuture view.inner r.shared).1 answer) := by
            simp only [pollFill, hstate, hrange, if_true]
          have hfut : r.future? adapter = some (adapter.createFuture view.inner r.shared).1 := by
            rw [future?, hstate]
          have hspec := pollFuture_spec (r := { r with
            shared := (adapter.createFuture view.inner r.shared).2 }) hadapter (hfits _ hfut)
            hunread
          exact ⟨_, _, hfill, hspec.inv, hspec.fresh, fun hne => absurd hunread hne, hspec.ready⟩
      | false =>
          have hfill : r.pollFill adapter answer = .ok (.ready (.ok ()), r) := by
            simp [pollFill, hstate, hrange]
          refine ⟨_, r, hfill, h, ⟨[], by simp, by simp⟩, fun _ => ⟨rfl, rfl⟩, fun _ => ?_⟩
          rw [buffer, unread, hstate]

theorem pollFillBuf_spec (hadapter : adapter.Lawful) (h : r.Inv)
    (hfits : ∀ fut, r.future? adapter = some fut → Fits (answer fut)) :
    ∃ poll r', r.pollFillBuf adapter answer = .ok (poll, r') ∧ r'.Inv ∧
      (∃ bytes, r'.source = r.source ++ bytes ∧ r'.unread = r.unread ++ bytes) ∧
      (r.unread ≠ [] → poll = .ready (.ok r.unread) ∧ r' = r) ∧
      ∀ slice, poll = .ready (.ok slice) → slice = r'.unread := by
  obtain ⟨poll, r', hfill, hfilled⟩ := pollFill_spec hadapter h hfits
  cases poll with
  | pending =>
      refine ⟨.pending, r', ?_, hfilled.inv, hfilled.fresh, fun hne => ?_, by simp⟩
      · simp only [pollFillBuf, hfill, bind, Except.bind, pure, Except.pure]
      · exact absurd (hfilled.kept hne).1 (by simp)
  | ready result =>
      cases result with
      | error err =>
          refine ⟨.ready (.error err), r', ?_, hfilled.inv, hfilled.fresh, fun hne => ?_, by simp⟩
          · simp only [pollFillBuf, hfill, bind, Except.bind, pure, Except.pure]
          · exact absurd (hfilled.kept hne).1 (by simp)
      | ok done =>
          refine ⟨.ready (.ok r'.unread), r', ?_, hfilled.inv, hfilled.fresh, fun hne => ?_, ?_⟩
          · simp only [pollFillBuf, hfill, hfilled.ready rfl, bind, Except.bind, pure, Except.pure]
          · obtain rfl := (hfilled.kept hne).2
            exact ⟨rfl, rfl⟩
          · rintro slice ⟨⟩
            rfl

theorem within_consume {view : View B Range} {amt : Nat} (h : Within view)
    (hamt : view.range.start + amt < 2 ^ 64) : Within (view.consume amt) := by
  obtain ⟨hordered, hfits, hinside⟩ := h
  refine ⟨Nat.min_le_right _ _, hfits, fun hempty => hinside ?_⟩
  simp only [View.consume, Range.isEmpty, Nat.mod_eq_of_lt hamt, Bool.not_eq_false',
    decide_eq_true_eq] at hempty ⊢
  omega

theorem consume_spec (hadapter : adapter.Lawful) (h : r.Inv) {amt : Nat}
    (hamt : ∀ view, r.state = .ready view → view.range.start + amt < 2 ^ 64) :
    (r.consume adapter amt).Inv ∧ (r.consume adapter amt).source = r.source ∧
      (r.consume adapter amt).unread = r.unread.drop amt := by
  cases hstate : r.state with
  | empty => exact absurd hstate h.nonempty
  | pending fut =>
      have hsame : r.consume adapter amt = r := by rw [consume, hstate]
      rw [hsame]
      exact ⟨h, rfl, by simp [unread, hstate]⟩
  | ready view =>
      have hconsume : r.consume adapter amt = { r with
          state := .ready (adapter.postConsume (view.consume amt) r.shared).1,
          shared := (adapter.postConsume (view.consume amt) r.shared).2 } := by
        rw [consume, hstate]
      have hrange := hadapter.range (view.consume amt) r.shared
      have hinner := hadapter.inner (view.consume amt) r.shared
      obtain ⟨hordered, hfits, hinside⟩ := within_consume (h.within view hstate) (hamt view hstate)
      have hunread : r.unread = view.stableSlice := by rw [unread, hstate]
      have hslice := View.stableSlice_consume view (hamt view hstate)
      rw [hconsume, hunread]
      refine ⟨⟨by simp, ?_⟩, rfl, ?_⟩
      · intro view' hview'
        obtain rfl := BufReaderState.ready.inj hview'
        rw [← hrange] at hordered hfits hinside
        refine ⟨hordered, hfits, fun hempty => ?_⟩
        rw [hinner (by rwa [← hrange])]
        exact hinside hempty
      · cases hempty : (view.consume amt).range.isEmpty with
        | true =>
            rw [← hslice, stableSlice_of_isEmpty hempty]
            exact stableSlice_of_isEmpty (by rw [hrange, hempty])
        | false =>
            rw [← hslice, View.stableSlice_range]
            show View.stableSlice (adapter.postConsume (view.consume amt) r.shared).1 = _
            rw [View.stableSlice_range, hrange, hinner hempty]

def copied : Poll (List UInt8) → List UInt8
  | .ready (.ok bytes) => bytes
  | _ => []

theorem start_add_length_le {view : View B Range} (h : Within view) :
    view.range.start + view.stableSlice.length ≤ view.range.stop := by
  have hordered := h.ordered
  rw [View.stableSlice_range, List.length_drop]
  have hle := List.length_take_le view.range.stop (stableSlice view.inner)
  omega

/-- A poll for reading takes what it copies from the front of what was delivered. -/
theorem pollRead_spec (hadapter : adapter.Lawful) (h : r.Inv)
    (hfits : ∀ fut, r.future? adapter = some fut → Fits (answer fut)) (len : Nat) :
    ∃ poll r', r.pollRead adapter len answer = .ok (poll, r') ∧ r'.Inv ∧
      ∃ bytes, r'.source = r.source ++ bytes ∧ copied poll ++ r'.unread = r.unread ++ bytes := by
  obtain ⟨poll, r', hfill, hinv, ⟨bytes, hsource, hunread⟩, -, hslice⟩ :=
    pollFillBuf_spec hadapter h hfits
  cases poll with
  | pending =>
      refine ⟨.pending, r', ?_, hinv, bytes, hsource, hunread⟩
      simp only [pollRead, hfill, bind, Except.bind, pure, Except.pure]
  | ready result =>
      cases result with
      | error err =>
          refine ⟨.ready (.error err), r', ?_, hinv, bytes, hsource, hunread⟩
          simp only [pollRead, hfill, bind, Except.bind, pure, Except.pure]
      | ok slice =>
          obtain rfl := hslice slice rfl
          have hlen : (r'.unread.take (min r'.unread.length len)).length =
              min r'.unread.length len := by simp
          have hamt : ∀ view, r'.state = .ready view →
              view.range.start + min r'.unread.length len < 2 ^ 64 := by
            intro view hview
            have hwithin := hinv.within view hview
            have hle := start_add_length_le hwithin
            have hlt := hwithin.fits
            have hsame : r'.unread = view.stableSlice := by rw [unread, hview]
            rw [hsame]
            omega
          obtain ⟨hinv', hsource', hunread'⟩ := consume_spec hadapter hinv hamt
          refine ⟨.ready (.ok (r'.unread.take (min r'.unread.length len))),
            r'.consume adapter (min r'.unread.length len), ?_, hinv', bytes, ?_, ?_⟩
          · simp only [pollRead, hfill, hlen, bind, Except.bind, pure, Except.pure]
          · rw [hsource', hsource]
          · rw [hunread', copied, List.take_append_drop, hunread]

end BufReaderInner

/-! ## The three kinds -/

/-- `BufReader` and `FixedBufReader` lend the buffer to the read. -/
def BufReaderAdapter.plain {S B : Type} (delivered : S → B → Nat → S) :
    BufReaderAdapter S B B Unit where
  delivered := delivered
  createFuture := Prod.mk
  postConsume := Prod.mk

/-- `GroupBufReader` gives the buffer to a set, whose buffers the kernel picks from.
`insert` is what the set does with it, `recycle` what it does before a read and `read`
the read that starts. -/
def BufReaderAdapter.group {S B F P : Type} (delivered : S → Option B → Nat → S) (read : F)
    (insert : B → P → P) (recycle : P → P) : BufReaderAdapter S (Option B) F P where
  delivered := delivered
  createFuture buffer set :=
    match buffer with
    | some buffer => (read, recycle (insert buffer set))
    | none => (read, recycle set)
  postConsume view set :=
    if view.range.isEmpty then
      match view.inner with
      | some buffer => ({ view with inner := none }, insert buffer set)
      | none => (view, set)
    else (view, set)

end Inel.Io
