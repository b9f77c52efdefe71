import Inel.Io.WriterSteps

/-!
# Closing streams

A writer stands alone or is what a stream is made of, and a stream may be handed to
`hyper`. Closing reaches the writer, which reports success and does nothing: what
it holds is delivered only if it is flushed some other time.
-/

namespace Inel.Io

open Inel.Reactor (Panic OsError)
open Transitions

def defaultBufSize : Nat := 4096 * 2

/-- A writer with what `impl_stream!` and `HyperStream` put around it. -/
inductive Stream
  | alone (inner : Writer)
  | bufStream (inner : Writer)
  | fixedBufStream (inner : Writer)
  | shareBufStream (inner : Writer)
  | hyper (inner : Stream)
deriving DecidableEq, Repr

namespace Stream

def pinnedInner : Stream → Writer
  | .alone inner => inner
  | .bufStream inner => inner
  | .fixedBufStream inner => inner
  | .shareBufStream inner => inner
  | .hyper inner => inner.pinnedInner

def put (writer : Writer) : Stream → Stream
  | .alone _ => .alone writer
  | .bufStream _ => .bufStream writer
  | .fixedBufStream _ => .fixedBufStream writer
  | .shareBufStream _ => .shareBufStream writer
  | .hyper inner => .hyper (inner.put writer)

@[simp] theorem pinnedInner_put (writer : Writer) (stream : Stream) :
    (stream.put writer).pinnedInner = writer := by
  induction stream with
  | hyper inner ih => exact ih
  | _ => rfl

def pollWrite (depth : Nat) (data : List UInt8) (answer : Poll Nat) (stream : Stream) :
    Except Panic (Poll Nat × Stream) := do
  let (poll, writer) ← stream.pinnedInner.pollWrite depth data answer
  return (poll, stream.put writer)

def pollFlush (answer : Poll Nat) (stream : Stream) : Except Panic (Poll Unit × Stream) := do
  let (poll, writer) ← stream.pinnedInner.pollFlush answer
  return (poll, stream.put writer)

/-- Also `HyperStream::poll_shutdown`. -/
def pollClose (stream : Stream) : Poll Unit × Stream :=
  let (poll, writer) := stream.pinnedInner.pollClose
  (poll, stream.put writer)

/-- Only a `BufWriter` that stands alone is in the hands of those who may `fix` it. -/
def fix (slot : Option UInt32) : Stream → Except FixError Stream
  | .alone inner => do
      let inner ← inner.fix slot
      return .alone inner
  | stream => .ok stream

def withSet (f : WriteBufferSet BoxBuf → WriteBufferSet BoxBuf) (stream : Stream) : Stream :=
  match stream.pinnedInner with
  | .group w => stream.put (.group { w with shared := f w.shared })
  | _ => stream

def Fresh : Stream → Prop
  | .alone inner => (∃ capacity, inner = .withCapacity capacity) ∨ ∃ set, inner = .supplyTo set
  | .bufStream inner => inner = .withCapacity defaultBufSize
  | .fixedBufStream inner => ∃ slot, (Writer.withCapacity defaultBufSize).fix slot = .ok inner
  | .shareBufStream inner => ∃ set, inner = .supplyTo set
  | .hyper inner => inner.Fresh

end Stream

/-! ## Runs -/

/-- A stream, the bytes it reported to have taken, and those of them that it had
taken when it was last closed. -/
structure StreamRun where
  stream : Stream
  accepted : List UInt8
  closed : List UInt8
deriving DecidableEq, Repr

namespace StreamRun

def exec (depth : Nat) (s : StreamRun) : WriterMove → Except Ended StreamRun
  | .pollWrite data answer =>
      match s.stream.pollWrite depth data answer with
      | .ok (poll, stream) =>
          .ok { s with
            stream := stream, accepted := s.accepted ++ BufWriterInner.accepted data poll }
      | .error panic => .error (.panic panic)
  | .pollFlush answer =>
      match s.stream.pollFlush answer with
      | .ok (_, stream) => .ok { s with stream := stream }
      | .error panic => .error (.panic panic)
  | .pollClose =>
      match s.stream.pollClose with
      | (.ready (.ok ()), stream) => .ok { s with stream := stream, closed := s.accepted }
      | (_, stream) => .ok { s with stream := stream }
  | .fix slot =>
      match s.stream.fix slot with
      | .ok stream => .ok { s with stream := stream }
      | .error err => .error (.unfixed err)
  | .insert buffer => .ok { s with stream := s.stream.withSet (·.insert buffer) }
  | .get => .ok { s with stream := s.stream.withSet fun set => (set.get zeroed).2 }

/-- Any buffers and any answers; `depth` is how deep calls may nest. -/
def machine (depth : Nat) : Machine StreamRun WriterMove Ended where
  init s := ∃ stream : Stream, stream.Fresh ∧ s = ⟨stream, [], []⟩
  permits _ _ := True
  exec := exec depth

/-- What was accepted before the last close was delivered. -/
def Delivered (s : StreamRun) : Prop := s.closed <+: s.stream.pinnedInner.delivered

/-- A stream is closed when its writer has no write in flight and an empty view. -/
def careful (s : StreamRun) : WriterMove → Bool
  | .pollClose => s.stream.pinnedInner.isIdle
  | _ => true

def Careful (s : StreamRun) (move : WriterMove) : Prop := s.careful move = true

structure Inv (s : StreamRun) : Prop where
  sound : s.stream.pinnedInner.Sound
  total : s.stream.pinnedInner.total = s.accepted

end StreamRun

/-! ## What is kept -/

namespace Stream

variable {stream : Stream}

theorem Fresh.sound (h : stream.Fresh) :
    stream.pinnedInner.Sound ∧ stream.pinnedInner.total = [] := by
  have hcapacity : ∀ capacity, (Writer.withCapacity capacity).Sound ∧
      (Writer.withCapacity capacity).total = [] :=
    fun capacity => ⟨.ready rfl (Nat.zero_le _), rfl⟩
  have hset : ∀ set, (Writer.supplyTo set).Sound ∧ (Writer.supplyTo set).total = [] :=
    fun set => ⟨.ready rfl (Nat.zero_le _), rfl⟩
  induction stream with
  | alone inner =>
      rcases h with ⟨capacity, rfl⟩ | ⟨set, rfl⟩
      · exact hcapacity capacity
      · exact hset set
  | bufStream inner =>
      obtain rfl : inner = _ := h
      exact hcapacity defaultBufSize
  | fixedBufStream inner =>
      obtain ⟨slot, hfix⟩ := h
      obtain ⟨hsound, htotal⟩ := hcapacity defaultBufSize
      have htook := Writer.fix_took hsound hfix
      exact ⟨htook.sound, by rw [pinnedInner, htook.total, htotal]; rfl⟩
  | shareBufStream inner =>
      obtain ⟨set, rfl⟩ := h
      exact hset set
  | hyper inner ih => exact ih h

/-- The set of a group writer is not where its bytes are. -/
theorem withSet_took (f : WriteBufferSet BoxBuf → WriteBufferSet BoxBuf)
    (h : stream.pinnedInner.Sound) :
    stream.pinnedInner.Took (stream.withSet f).pinnedInner [] := by
  unfold withSet
  cases hinner : stream.pinnedInner with
  | stable w =>
      rw [hinner] at h ⊢
      exact .refl h
  | fixed w =>
      rw [hinner] at h ⊢
      exact .refl h
  | group w =>
      rw [hinner] at h
      rw [pinnedInner_put]
      exact ⟨⟨h.view, h.pending⟩, (List.append_nil _).symm, List.prefix_refl _⟩

theorem fix_took {slot : Option UInt32} {stream' : Stream} (h : stream.pinnedInner.Sound)
    (hok : stream.fix slot = .ok stream') :
    stream.pinnedInner.Took stream'.pinnedInner [] := by
  have hsame : stream' = stream → stream.pinnedInner.Took stream'.pinnedInner [] := by
    rintro rfl
    exact .refl h
  cases stream with
  | alone inner =>
      obtain ⟨inner', hfix, hret⟩ := bind_eq_ok hok
      obtain rfl := Except.ok.inj hret
      exact Writer.fix_took h hfix
  | bufStream inner => exact hsame (Except.ok.inj hok).symm
  | fixedBufStream inner => exact hsame (Except.ok.inj hok).symm
  | shareBufStream inner => exact hsame (Except.ok.inj hok).symm
  | hyper inner => exact hsame (Except.ok.inj hok).symm

end Stream

namespace StreamRun

variable {s s' : StreamRun} {depth : Nat} {move : WriterMove}

/-- A move takes some bytes; closing takes none and says that all were delivered. -/
theorem exec_spec (h : s.Inv) (hok : s.exec depth move = .ok s') :
    (s.careful move = true ∧ ∃ bytes, s.stream.pinnedInner.Took s'.stream.pinnedInner bytes ∧
      s'.accepted = s.accepted ++ bytes ∧ s'.closed = s.closed) ∨
    move = .pollClose ∧ s'.stream.pinnedInner = s.stream.pinnedInner ∧
      s'.accepted = s.accepted ∧ s'.closed = s.accepted := by
  cases move with
  | pollWrite data answer =>
      simp only [exec] at hok
      split at hok
      · next poll stream hwrite =>
          obtain rfl := Except.ok.inj hok
          obtain ⟨ran, hran, hret⟩ := bind_eq_ok hwrite
          obtain ⟨rfl, rfl⟩ := Prod.mk.inj (Except.ok.inj hret)
          refine Or.inl ⟨rfl, _, ?_, rfl, rfl⟩
          rw [Stream.pinnedInner_put]
          exact Writer.pollWrite_took h.sound hran
      · simp at hok
  | pollFlush answer =>
      simp only [exec] at hok
      split at hok
      · next poll stream hflush =>
          obtain rfl := Except.ok.inj hok
          obtain ⟨ran, hran, hret⟩ := bind_eq_ok hflush
          obtain ⟨rfl, rfl⟩ := Prod.mk.inj (Except.ok.inj hret)
          refine Or.inl ⟨rfl, [], ?_, (List.append_nil _).symm, rfl⟩
          rw [Stream.pinnedInner_put]
          exact Writer.pollFlush_took h.sound hran
      · simp at hok
  | pollClose =>
      obtain rfl := Except.ok.inj hok
      exact Or.inr ⟨rfl, Stream.pinnedInner_put _ _, rfl, rfl⟩
  | fix slot =>
      simp only [exec] at hok
      split at hok
      · next stream hfix =>
          obtain rfl := Except.ok.inj hok
          exact Or.inl ⟨rfl, [], Stream.fix_took h.sound hfix, (List.append_nil _).symm, rfl⟩
      · simp at hok
  | insert buffer =>
      obtain rfl := Except.ok.inj hok
      exact Or.inl ⟨rfl, [], Stream.withSet_took (·.insert buffer) h.sound,
        (List.append_nil _).symm, rfl⟩
  | get =>
      obtain rfl := Except.ok.inj hok
      exact Or.inl ⟨rfl, [], Stream.withSet_took (fun set => (set.get zeroed).2) h.sound,
        (List.append_nil _).symm, rfl⟩

theorem Inv.step (h : s.Inv) (hok : s.exec depth move = .ok s') : s'.Inv := by
  rcases exec_spec h hok with ⟨-, bytes, htook, haccepted, -⟩ | ⟨-, hinner, haccepted, -⟩
  · exact ⟨htook.sound, by rw [htook.total, haccepted, h.total]⟩
  · exact ⟨by rw [hinner]; exact h.sound, by rw [hinner, haccepted]; exact h.total⟩

theorem Inv.of_reach {cond : StreamRun → WriterMove → Prop} (h : Reach (machine depth) cond s) :
    s.Inv := by
  refine h.invariant ?_ fun _ _ _ hinv _ _ hok => hinv.step hok
  rintro s ⟨stream, hfresh, rfl⟩
  exact ⟨hfresh.sound.1, hfresh.sound.2⟩

/-- All that was accepted was delivered when nothing is held. -/
theorem Inv.accepted_prefix_iff (h : s.Inv) :
    s.accepted <+: s.stream.pinnedInner.delivered ↔ s.stream.pinnedInner.isIdle = true := by
  rw [h.sound.isIdle_iff, ← h.total, Writer.total]
  constructor
  · intro hprefix
    have hlength := hprefix.length_le
    rw [List.length_append] at hlength
    exact List.length_eq_zero_iff.mp (by omega)
  · intro hheld
    exact ⟨[], by rw [hheld, List.append_nil, List.append_nil]⟩

/-- Only a careless close leaves bytes that were accepted before it behind. -/
theorem delivered_iff (h : s.Inv) (hdelivered : s.Delivered) (hok : s.exec depth move = .ok s') :
    s'.Delivered ↔ s.careful move = true := by
  rcases exec_spec h hok with ⟨hcareful, bytes, htook, -, hclosed⟩ | ⟨rfl, hinner, -, hclosed⟩
  · refine iff_of_true ?_ hcareful
    rw [Delivered, hclosed]
    exact hdelivered.trans htook.delivered
  · rw [Delivered, hclosed, hinner]
    exact h.accepted_prefix_iff

/-- In a run in which the writer is idle whenever it is closed, what was accepted
before a close was delivered; a close of a writer that is not idle leaves some of
it behind. -/
theorem closed_bytes_delivered_iff (h : Reach (machine depth) Careful s) :
    s.Delivered ∧ ∀ move s', (machine depth).exec s move = .ok s' →
      (s'.Delivered ↔ s.careful move = true) := by
  have hinv : s.Inv ∧ s.Delivered := by
    refine Reach.invariant (I := fun s => s.Inv ∧ s.Delivered) ?_ ?_ h
    · rintro s ⟨stream, hfresh, rfl⟩
      exact ⟨⟨hfresh.sound.1, hfresh.sound.2⟩, List.nil_prefix⟩
    · rintro s move s' ⟨hinv, hdelivered⟩ - hcareful hok
      exact ⟨hinv.step hok, (delivered_iff hinv hdelivered hok).mpr hcareful⟩
  exact ⟨hinv.2, fun move s' hok => delivered_iff hinv.1 hinv.2 hok⟩

/-- Three bytes are written, flushed and closed upon, through `hyper` as well. -/
theorem flushed_stream_delivered :
    ∃ s : StreamRun, s.Delivered ∧ s.closed = [1, 2, 3] := by
  obtain ⟨s, hreach, htest⟩ := Reach.of_replay (M := machine 2) careful
    (fun s move h => ⟨trivial, h⟩)
    (.start ⟨.hyper (.shareBufStream (.supplyTo ⟨[], 4⟩)), ⟨_, rfl⟩, rfl⟩)
    [.pollWrite [1, 2, 3] .pending, .pollFlush .pending, .pollFlush (.ready (.ok 3)), .pollClose]
    (fun s => s.closed == [1, 2, 3]) rfl
  exact ⟨s, (closed_bytes_delivered_iff hreach).1, by simpa using htest⟩

/-- Three bytes are written and the stream is closed. They stay in the buffer. -/
theorem closed_stream_holds_bytes :
    ∃ s s' : StreamRun, Reach (machine 2) Any s ∧
      (machine 2).exec s .pollClose = .ok s' ∧ s'.closed = [1, 2, 3] ∧
      s'.stream.pinnedInner.delivered = [] ∧ s'.stream.pinnedInner.held = [1, 2, 3] ∧
      ¬ s'.Delivered := by
  have hany : ∀ (s : StreamRun) (move : WriterMove), true = true →
      (machine 2).permits s move ∧ Any s move := fun _ _ _ => ⟨trivial, trivial⟩
  have hreach := Reach.replay (M := machine 2) (fun _ _ => true) hany
    (.start ⟨.alone (.withCapacity 4), Or.inl ⟨4, rfl⟩, rfl⟩)
    [.pollWrite [1, 2, 3] .pending] rfl
  refine ⟨_, _, hreach, rfl, rfl, rfl, rfl, ?_⟩
  intro hdelivered
  exact absurd hdelivered.length_le (by decide)

end StreamRun

end Inel.Io
