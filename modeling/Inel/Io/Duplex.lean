import Inel.Io.ReaderRuns
import Inel.Io.Sinks
import Inel.Io.Streams

/-!
# Streams in both directions

`BufStream` and its kin are a writer around a reader around a socket. Bytes are read by
the reader in the middle and written through it, and neither direction gets in the way
of the other: a stream does what its writer and its reader do side by side.
-/

namespace Inel.Io

open Inel.Reactor (Panic OsError)
open Transitions

/-- What was received and sent over a connection. -/
structure Socket where
  received : List UInt8
  sent : List UInt8
deriving DecidableEq, Repr

/-- A writer whose sink is a reader. -/
abbrev Nested (B F P B' P' : Type) := BufWriterInner (BufReaderInner Socket B F P) B' P'

namespace Nested

variable {B F P B' P' : Type}

def receive [Bytes B] (socket : Socket) (buffer : B) (n : Nat) : Socket :=
  { socket with received := deliverBytes socket.received buffer n }

/-- `write_source` of a reader is that of its source. -/
def send [Bytes B'] (reader : BufReaderInner Socket B F P) (view : View B' RangeTo) (n : Nat) :
    BufReaderInner Socket B F P :=
  { reader with source := { reader.source with sent := takeBytes reader.source.sent view n } }

def writer (nested : Nested B F P B' P') : BufWriterInner (List UInt8) B' P' :=
  nested.onto (·.source.sent)

def reader (nested : Nested B F P B' P') : BufReaderInner (List UInt8) B F P :=
  nested.sink.onto (·.received)

/-- The reader when so much was sent through it. -/
def sending (nested : Nested B F P B' P') (sent : List UInt8) : BufReaderInner Socket B F P :=
  { nested.sink with source := { nested.sink.source with sent := sent } }

/-- The socket when so much was received from it. -/
def receiving (nested : Nested B F P B' P') (received : List UInt8) : Socket :=
  { nested.sink.source with received := received }

theorem writer_sending (nested : Nested B F P B' P') :
    nested.writer.onto nested.sending = nested := rfl

theorem reader_receiving (nested : Nested B F P B' P') :
    nested.reader.onto nested.receiving = nested.sink := rfl

end Nested

/-- The streams of `impl_stream!`. -/
inductive DuplexStream
  | bufStream (inner : Nested BoxBuf BoxBuf Unit BoxBuf Unit)
  | fixedBufStream (inner : Nested Fixed Fixed Unit Fixed Unit)
  | shareBufStream
      (inner : Nested (Option BoxBuf) Unit (List BoxBuf) (Option BoxBuf) (WriteBufferSet BoxBuf))
deriving DecidableEq, Repr

def BufStream.new : DuplexStream :=
  .bufStream (.new (zeroed defaultBufSize) (.new (zeroed defaultBufSize) ⟨[], []⟩ 0 0 ()) 0 ())

/-- The slots that the buffers of the reader and of the writer are registered in. -/
def FixedBufStream.new (readSlot writeSlot : Option UInt32) : Except FixError DuplexStream :=
  match readSlot, writeSlot with
  | some readSlot, some writeSlot =>
      .ok (.fixedBufStream (.new ⟨zeroed defaultBufSize, writeSlot⟩
        (.new ⟨zeroed defaultBufSize, readSlot⟩ ⟨[], []⟩ 0 0 ()) 0 ()))
  | _, _ => .error .register

/-- `supply_to` of a group with this set of write buffers. -/
def ShareBufStream.new (set : WriteBufferSet BoxBuf) : DuplexStream :=
  .shareBufStream (.new none (.new none ⟨[], []⟩ 0 0 []) 0 set)

namespace DuplexStream

def writer : DuplexStream → Writer
  | .bufStream inner => .stable inner.writer
  | .fixedBufStream inner => .fixed inner.writer
  | .shareBufStream inner => .group inner.writer

def reader : DuplexStream → Reader
  | .bufStream inner => .stable inner.reader
  | .fixedBufStream inner => .fixed inner.reader
  | .shareBufStream inner => .group inner.reader

def onWriter {α : Type}
    (run : ∀ {S B P : Type} [Bytes B], BufWriterAdapter S B P → BufWriterInner S B P →
      Except Panic (α × BufWriterInner S B P)) : DuplexStream → Except Panic (α × DuplexStream)
  | .bufStream inner => mapState .bufStream (run (.plain Nested.send) inner)
  | .fixedBufStream inner => mapState .fixedBufStream (run (.plain Nested.send) inner)
  | .shareBufStream inner => mapState .shareBufStream
      (run (.group Nested.send (fun set => set.get zeroed) fun buffer set => set.insert buffer)
        inner)

def onReader {α : Type} (arrival : Arrival)
    (run : ∀ {S B F P : Type} [Bytes B], BufReaderAdapter S B F P → (F → ReadAnswer B) →
      BufReaderInner S B F P → Except Panic (α × BufReaderInner S B F P)) :
    DuplexStream → Except Panic (α × DuplexStream)
  | .bufStream inner => mapState (fun sink => .bufStream { inner with sink := sink })
      (run (.plain Nested.receive) arrival.lent inner.sink)
  | .fixedBufStream inner => mapState (fun sink => .fixedBufStream { inner with sink := sink })
      (run (.plain Nested.receive) arrival.lent inner.sink)
  | .shareBufStream inner => mapState (fun sink => .shareBufStream { inner with sink := sink })
      (run (.group Nested.receive () List.cons id) arrival.picked inner.sink)

def pollWrite (depth : Nat) (data : List UInt8) (answer : Poll Nat) :
    DuplexStream → Except Panic (Poll Nat × DuplexStream) :=
  onWriter fun adapter => BufWriterInner.pollWrite adapter data answer depth

def pollFlush (answer : Poll Nat) : DuplexStream → Except Panic (Poll Unit × DuplexStream) :=
  onWriter fun adapter w => w.pollFlush adapter answer

/-- `poll_close` leaves the stream as it is. -/
def pollClose (stream : DuplexStream) : Poll Unit × DuplexStream := (.ready (.ok ()), stream)

def pollFillBuf (arrival : Arrival) :
    DuplexStream → Except Panic (Poll (List UInt8) × DuplexStream) :=
  onReader arrival fun adapter answer r => r.pollFillBuf adapter answer

def pollRead (len : Nat) (arrival : Arrival) :
    DuplexStream → Except Panic (Poll (List UInt8) × DuplexStream) :=
  onReader arrival fun adapter answer r => r.pollRead adapter len answer

def consume (amt : Nat) : DuplexStream → DuplexStream
  | .bufStream inner =>
      .bufStream { inner with sink := inner.sink.consume (.plain Nested.receive) amt }
  | .fixedBufStream inner =>
      .fixedBufStream { inner with sink := inner.sink.consume (.plain Nested.receive) amt }
  | .shareBufStream inner => .shareBufStream { inner with
      sink := inner.sink.consume (.group Nested.receive () List.cons id) amt }

/-- What others do to the set of write buffers of a group. -/
def withSet (f : WriteBufferSet BoxBuf → WriteBufferSet BoxBuf) : DuplexStream → DuplexStream
  | .shareBufStream inner => .shareBufStream { inner with shared := f inner.shared }
  | stream => stream

/-- A stream as its constructor makes it, from a set that gives buffers with room. -/
inductive Fresh : DuplexStream → Prop
  | bufStream : Fresh BufStream.new
  | fixedBufStream {readSlot writeSlot : Option UInt32} {stream : DuplexStream}
      (hnew : FixedBufStream.new readSlot writeSlot = .ok stream) : Fresh stream
  | shareBufStream {set : WriteBufferSet BoxBuf} (hset : GivesRoom set) :
      Fresh (ShareBufStream.new set)

/-! ## One direction at a time -/

section Parts

variable {B F P B' P' α : Type} {stream : DuplexStream} {value : α}

theorem send_follows [Bytes B'] (nested : Nested B F P B' P') :
    (BufWriterAdapter.plain (takeBytes (B := B'))).Follows nested.sending (.plain Nested.send) :=
  ⟨fun _ _ _ => rfl, rfl, rfl⟩

theorem send_group_follows {F P P' : Type} (nested : Nested B F P (Option BoxBuf) P')
    (get : P' → BoxBuf × P') (insert : BoxBuf → P' → P') :
    (BufWriterAdapter.group takeBytes get insert).Follows nested.sending
      (.group Nested.send get insert) := ⟨fun _ _ _ => rfl, rfl, rfl⟩

theorem run_writer [Bytes B'] {nested : Nested B F P B' P'}
    {w : BufWriterInner (List UInt8) B' P'} {adapter : BufWriterAdapter (List UInt8) B' P'}
    {adapter' : BufWriterAdapter (BufReaderInner Socket B F P) B' P'}
    {run : ∀ {S B P : Type} [Bytes B], BufWriterAdapter S B P → BufWriterInner S B P →
      Except Panic (α × BufWriterInner S B P)}
    (hrun : ∀ {S S' B P : Type} [Bytes B] {f : S → S'} {adapter : BufWriterAdapter S B P}
      {adapter' : BufWriterAdapter S' B P}, adapter.Follows f adapter' →
      ∀ w, run adapter' (w.onto f) = mapState (BufWriterInner.onto f) (run adapter w))
    (hfollows : adapter.Follows nested.sending adapter')
    (hran : run adapter nested.writer = .ok (value, w)) :
    run adapter' nested = .ok (value, w.onto nested.sending) := by
  have hnested := hrun hfollows nested.writer
  rw [Nested.writer_sending, hran] at hnested
  exact hnested

/-- A call on the writer does to it what it would do to a writer alone, and leaves the reader. -/
theorem onWriter_eq_ok {writer' : Writer}
    {run : ∀ {S B P : Type} [Bytes B], BufWriterAdapter S B P → BufWriterInner S B P →
      Except Panic (α × BufWriterInner S B P)}
    (hrun : ∀ {S S' B P : Type} [Bytes B] {f : S → S'} {adapter : BufWriterAdapter S B P}
      {adapter' : BufWriterAdapter S' B P}, adapter.Follows f adapter' →
      ∀ w, run adapter' (w.onto f) = mapState (BufWriterInner.onto f) (run adapter w))
    (h : stream.writer.call run = .ok (value, writer')) :
    ∃ stream', stream.onWriter run = .ok (value, stream') ∧ stream'.writer = writer' ∧
      stream'.reader = stream.reader := by
  cases stream with
  | bufStream inner =>
      obtain ⟨⟨value, w⟩, hran, hret⟩ := bind_eq_ok h
      obtain ⟨rfl, rfl⟩ := Prod.mk.inj (Except.ok.inj hret)
      refine ⟨.bufStream (w.onto inner.sending), ?_, rfl, rfl⟩
      rw [onWriter, run_writer hrun (send_follows inner) hran]
      rfl
  | fixedBufStream inner =>
      obtain ⟨⟨value, w⟩, hran, hret⟩ := bind_eq_ok h
      obtain ⟨rfl, rfl⟩ := Prod.mk.inj (Except.ok.inj hret)
      refine ⟨.fixedBufStream (w.onto inner.sending), ?_, rfl, rfl⟩
      rw [onWriter, run_writer hrun (send_follows inner) hran]
      rfl
  | shareBufStream inner =>
      obtain ⟨⟨value, w⟩, hran, hret⟩ := bind_eq_ok h
      obtain ⟨rfl, rfl⟩ := Prod.mk.inj (Except.ok.inj hret)
      refine ⟨.shareBufStream (w.onto inner.sending), ?_, rfl, rfl⟩
      rw [onWriter, run_writer hrun (send_group_follows inner _ _) hran]
      rfl

theorem run_reader [Bytes B] {nested : Nested B F P B' P'}
    {r : BufReaderInner (List UInt8) B F P} {adapter : BufReaderAdapter (List UInt8) B F P}
    {adapter' : BufReaderAdapter Socket B F P} {answer : F → ReadAnswer B}
    {run : ∀ {S B F P : Type} [Bytes B], BufReaderAdapter S B F P → (F → ReadAnswer B) →
      BufReaderInner S B F P → Except Panic (α × BufReaderInner S B F P)}
    (hrun : ∀ {S' B F P : Type} [Bytes B] {f : List UInt8 → S'}
      {adapter : BufReaderAdapter (List UInt8) B F P} {adapter' : BufReaderAdapter S' B F P}
      {answer : F → ReadAnswer B}, adapter.Follows adapter' →
      ∀ r, (∀ fut, BufReaderInner.Mirrors f adapter adapter' r.source (answer fut)) →
        run adapter' answer (r.onto f) = mapState (BufReaderInner.onto f) (run adapter answer r))
    (hfollows : adapter.Follows adapter')
    (hmirrors : ∀ fut, BufReaderInner.Mirrors nested.receiving adapter adapter'
      nested.reader.source (answer fut))
    (hran : run adapter answer nested.reader = .ok (value, r)) :
    run adapter' answer nested.sink = .ok (value, r.onto nested.receiving) := by
  have hnested := hrun hfollows nested.reader hmirrors
  rw [Nested.reader_receiving, hran] at hnested
  exact hnested

/-- A call on the reader does to it what it would do to a reader alone, and leaves the writer. -/
theorem onReader_eq_ok {arrival : Arrival} {reader' : Reader}
    {run : ∀ {S B F P : Type} [Bytes B], BufReaderAdapter S B F P → (F → ReadAnswer B) →
      BufReaderInner S B F P → Except Panic (α × BufReaderInner S B F P)}
    (hrun : ∀ {S' B F P : Type} [Bytes B] {f : List UInt8 → S'}
      {adapter : BufReaderAdapter (List UInt8) B F P} {adapter' : BufReaderAdapter S' B F P}
      {answer : F → ReadAnswer B}, adapter.Follows adapter' →
      ∀ r, (∀ fut, BufReaderInner.Mirrors f adapter adapter' r.source (answer fut)) →
        run adapter' answer (r.onto f) = mapState (BufReaderInner.onto f) (run adapter answer r))
    (h : stream.reader.call arrival run = .ok (value, reader')) :
    ∃ stream', stream.onReader arrival run = .ok (value, stream') ∧ stream'.reader = reader' ∧
      stream'.writer = stream.writer := by
  cases stream with
  | bufStream inner =>
      obtain ⟨⟨value, r⟩, hran, hret⟩ := bind_eq_ok h
      obtain ⟨rfl, rfl⟩ := Prod.mk.inj (Except.ok.inj hret)
      refine ⟨.bufStream { inner with sink := r.onto inner.receiving }, ?_, rfl, rfl⟩
      rw [onReader, run_reader hrun ⟨rfl, rfl⟩ (fun _ _ _ _ => rfl) hran]
      rfl
  | fixedBufStream inner =>
      obtain ⟨⟨value, r⟩, hran, hret⟩ := bind_eq_ok h
      obtain ⟨rfl, rfl⟩ := Prod.mk.inj (Except.ok.inj hret)
      refine ⟨.fixedBufStream { inner with sink := r.onto inner.receiving }, ?_, rfl, rfl⟩
      rw [onReader, run_reader hrun ⟨rfl, rfl⟩ (fun _ _ _ _ => rfl) hran]
      rfl
  | shareBufStream inner =>
      obtain ⟨⟨value, r⟩, hran, hret⟩ := bind_eq_ok h
      obtain ⟨rfl, rfl⟩ := Prod.mk.inj (Except.ok.inj hret)
      refine ⟨.shareBufStream { inner with sink := r.onto inner.receiving }, ?_, rfl, rfl⟩
      rw [onReader, run_reader hrun ⟨rfl, rfl⟩ (fun _ _ _ _ => rfl) hran]
      rfl

theorem consume_reader {nested : Nested B F P B' P'}
    {adapter : BufReaderAdapter (List UInt8) B F P} {adapter' : BufReaderAdapter Socket B F P}
    (hfollows : adapter.Follows adapter') (amt : Nat) :
    nested.sink.consume adapter' amt =
      (nested.reader.consume adapter amt).onto nested.receiving := by
  rw [← Nested.reader_receiving nested]
  exact BufReaderInner.consume_onto hfollows nested.reader amt

theorem consume_parts (stream : DuplexStream) (amt : Nat) :
    (stream.consume amt).reader = stream.reader.consume amt ∧
      (stream.consume amt).writer = stream.writer := by
  cases stream with
  | bufStream inner =>
      have hsink : inner.sink.consume (.plain Nested.receive) amt =
          (inner.reader.consume Reader.ownedAdapter amt).onto inner.receiving :=
        consume_reader ⟨rfl, rfl⟩ amt
      rw [consume, hsink]
      exact ⟨rfl, rfl⟩
  | fixedBufStream inner =>
      have hsink : inner.sink.consume (.plain Nested.receive) amt =
          (inner.reader.consume Reader.fixedAdapter amt).onto inner.receiving :=
        consume_reader ⟨rfl, rfl⟩ amt
      rw [consume, hsink]
      exact ⟨rfl, rfl⟩
  | shareBufStream inner =>
      have hsink : inner.sink.consume (.group Nested.receive () List.cons id) amt =
          (inner.reader.consume Reader.groupAdapter amt).onto inner.receiving :=
        consume_reader ⟨rfl, rfl⟩ amt
      rw [consume, hsink]
      exact ⟨rfl, rfl⟩

theorem pollWrite_parts {depth : Nat} {data : List UInt8} {answer poll : Poll Nat}
    {writer' : Writer} (h : stream.writer.pollWrite depth data answer = .ok (poll, writer')) :
    ∃ stream', stream.pollWrite depth data answer = .ok (poll, stream') ∧
      stream'.writer = writer' ∧ stream'.reader = stream.reader :=
  onWriter_eq_ok (fun hfollows => BufWriterInner.pollWrite_onto hfollows data depth) h

theorem pollFlush_parts {answer : Poll Nat} {poll : Poll Unit} {writer' : Writer}
    (h : stream.writer.pollFlush answer = .ok (poll, writer')) :
    ∃ stream', stream.pollFlush answer = .ok (poll, stream') ∧
      stream'.writer = writer' ∧ stream'.reader = stream.reader :=
  onWriter_eq_ok BufWriterInner.pollFlush_onto h

theorem pollFillBuf_parts {arrival : Arrival} {poll : Poll (List UInt8)} {reader' : Reader}
    (h : stream.reader.pollFillBuf arrival = .ok (poll, reader')) :
    ∃ stream', stream.pollFillBuf arrival = .ok (poll, stream') ∧
      stream'.reader = reader' ∧ stream'.writer = stream.writer :=
  onReader_eq_ok (fun hfollows r hmirrors =>
    BufReaderInner.pollFillBuf_onto hfollows r fun fut _ => hmirrors fut) h

theorem pollRead_parts {len : Nat} {arrival : Arrival} {poll : Poll (List UInt8)}
    {reader' : Reader} (h : stream.reader.pollRead len arrival = .ok (poll, reader')) :
    ∃ stream', stream.pollRead len arrival = .ok (poll, stream') ∧
      stream'.reader = reader' ∧ stream'.writer = stream.writer :=
  onReader_eq_ok (fun hfollows r hmirrors =>
    BufReaderInner.pollRead_onto hfollows r len fun fut _ => hmirrors fut) h

end Parts

end DuplexStream

end Inel.Io
