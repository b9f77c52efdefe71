import Inel.Io.Duplex
import Inel.Io.ReaderPolls
import Inel.Io.ShortWrites

/-!
# Connections

Two streams with a connection between them. The network hands on what was sent, in order
and as much at a time as it likes, and tells that nothing more comes once the sender is
gone. A stream may be dropped at any time, and some of a write in flight still gets out.
-/

namespace Inel.Io

open Inel.Reactor (Panic OsError)
open Transitions

inductive Party
  | client
  | server
deriving DecidableEq, Repr

def Party.other : Party → Party
  | .client => .server
  | .server => .client

@[simp] theorem Party.other_other (party : Party) : party.other.other = party := by
  cases party <;> rfl

theorem Party.other_ne (party : Party) : party.other ≠ party := by
  cases party <;> simp [Party.other]

theorem Party.eq_other {party other : Party} (h : other ≠ party) : other = party.other := by
  cases party <;> cases other <;> simp_all [Party.other]

/-- One side: what its stream reported to have written, and what was taken from it. -/
structure End where
  stream : DuplexStream
  accepted : List UInt8
  taken : List UInt8
  /-- The stream said that nothing more comes. -/
  ended : Bool
  /-- The stream was dropped, and so much of what it held got out. -/
  dropped : Option Nat
deriving DecidableEq, Repr

namespace End

def received (e : End) : List UInt8 := e.stream.reader.delivered

def unread (e : End) : List UInt8 := e.stream.reader.unread

def sent (e : End) : List UInt8 :=
  e.stream.writer.delivered ++ e.stream.writer.held.take (e.dropped.getD 0)

def held (e : End) : List UInt8 := e.stream.writer.held.drop (e.dropped.getD 0)

end End

/-- What comes of a read: the next bytes of those on their way, with what the rest of the
buffer has, or the end. -/
inductive Recv
  | pending
  | failed (err : OsError)
  | got (n : Nat) (rest : List UInt8)
  | closed
deriving DecidableEq, Repr

def Recv.arrival (transit : List UInt8) : Recv → Arrival
  | .pending => .pending
  | .failed err => .done none (.error err)
  | .got n rest => .done (some (transit.take n ++ rest)) (.ok n)
  | .closed => .done none (.ok 0)

/-- `insert` and `get` are calls of others on the set of write buffers. -/
inductive ConnectionMove
  | pollWrite (data : List UInt8) (answer : Poll Nat)
  | pollFlush (answer : Poll Nat)
  | pollClose
  | pollFillBuf (recv : Recv)
  | pollRead (len : Nat) (recv : Recv)
  | consume (amt : Nat)
  | insert (buffer : BoxBuf)
  | get
  | drop (landed : Nat)
deriving Repr

/-- What a poll says when nothing more comes. -/
def isEnd : Poll (List UInt8) → Bool
  | .ready (.ok []) => true
  | _ => false

namespace Reader

/-- A read that succeeded put all its bytes where there was room. -/
def holds (reader : Reader) : Arrival → Bool
  | .done bytes (.ok n) => n ≤ (bytes.getD []).length &&
      reader.fits (.done bytes (.ok (bytes.getD []).length))
  | _ => true

end Reader

/-- A write takes the whole view, or fails and took nothing. -/
def Writer.takesWhole (writer : Writer) : Poll Nat → Bool
  | .ready (.ok wrote) => writer.pos? == some wrote
  | _ => true

namespace Connection

/-- What is on its way to a party. -/
def transit (s : Party → End) (party : Party) : List UInt8 :=
  (s party.other).sent.drop (s party).received.length

def execAt (depth : Nat) (transit : List UInt8) (e : End) : ConnectionMove → Except Panic End
  | .pollWrite data answer => do
      let (poll, stream) ← e.stream.pollWrite depth data answer
      return { e with
        stream := stream, accepted := e.accepted ++ BufWriterInner.accepted data poll }
  | .pollFlush answer => do
      let (_, stream) ← e.stream.pollFlush answer
      return { e with stream := stream }
  | .pollClose => .ok { e with stream := e.stream.pollClose.2 }
  | .pollFillBuf recv => do
      let (poll, stream) ← e.stream.pollFillBuf (recv.arrival transit)
      return { e with stream := stream, ended := e.ended || isEnd poll }
  | .pollRead len recv => do
      let (poll, stream) ← e.stream.pollRead len (recv.arrival transit)
      return { e with
        stream := stream, taken := e.taken ++ BufReaderInner.copied poll,
        ended := e.ended || 0 < len && isEnd poll }
  | .consume amt => .ok { e with
      stream := e.stream.consume amt, taken := e.taken ++ e.unread.take amt }
  | .insert buffer => .ok { e with stream := e.stream.withSet (·.insert buffer) }
  | .get => .ok { e with stream := e.stream.withSet fun set => (set.get zeroed).2 }
  | .drop landed => .ok { e with dropped := some landed }

def exec (depth : Nat) (s : Party → End) (move : Party × ConnectionMove) :
    Except Panic (Party → End) := do
  let e ← execAt depth (transit s move.1) (s move.1) move.2
  return Function.update s move.1 e

def spent (s : Party → End) (party : Party) : Bool :=
  (s party.other).dropped.isSome && (transit s party).isEmpty

/-- The network has such bytes to hand on, or an end to tell of. -/
def hands (transit : List UInt8) (spent : Bool) (e : End) (recv : Recv) : Bool :=
  e.stream.reader.holds (recv.arrival transit) &&
  match recv with
  | .got n _ => n ≤ transit.length && (0 < n || spent)
  | .closed => spent
  | _ => true

def permitsAt (transit : List UInt8) (spent : Bool) (e : End) : ConnectionMove → Bool
  | .pollWrite _ answer => e.stream.writer.takesWhole answer
  | .pollFlush answer => e.stream.writer.takesWhole answer
  | .pollFillBuf recv => hands transit spent e recv
  | .pollRead _ recv => hands transit spent e recv
  | .consume amt => e.stream.reader.pos?.all fun pos => decide (pos + amt < 2 ^ 64)
  | .insert buffer => 0 < buffer.length
  | .drop landed => landed == 0 || e.stream.writer.inFlight
  | _ => true

def permits (s : Party → End) (move : Party × ConnectionMove) : Bool :=
  (s move.1).dropped.isNone &&
    permitsAt (transit s move.1) (spent s move.1) (s move.1) move.2

/-- Two new streams that nothing was written to yet. -/
def machine (depth : Nat) : Machine (Party → End) (Party × ConnectionMove) Panic where
  init s := ∀ party, ∃ stream : DuplexStream, stream.Fresh ∧
    s party = ⟨stream, [], [], false, none⟩
  permits s move := permits s move = true
  exec := exec depth

end Connection

/-! ## What a read brings -/

/-- A reader was passed what the read brought, or nothing and did not say that it ended. -/
def Reader.Brings (arrival : Arrival) (reader reader' : Reader) (poll : Poll (List UInt8)) :
    Prop :=
  (reader'.delivered = reader.delivered ∧ poll ≠ .ready (.ok [])) ∨
  ∃ bytes n, arrival = .done bytes (.ok n) ∧ reader.unread = [] ∧
    reader'.delivered = reader.delivered ++ (bytes.getD []).take n ∧
    (poll = .ready (.ok []) → (bytes.getD []).take n = [])

theorem nil_of_isEnd {poll : Poll (List UInt8)} (h : isEnd poll = true) :
    poll = .ready (.ok []) := by
  unfold isEnd at h
  split at h
  · rfl
  · exact Bool.noConfusion h

/-- What the read that was polled delivered is what the kernel says it brought. -/
theorem brings_of_polls {B F P : Type} [Bytes B] {adapter : BufReaderAdapter (List UInt8) B F P}
    {answer : F → ReadAnswer B} {r r' : BufReaderInner (List UInt8) B F P}
    {poll : Poll (List UInt8)} {arrival : Arrival} {reader reader' : Reader}
    (hreader : reader.delivered = r.source ∧ reader.unread = r.unread)
    (hreader' : reader'.delivered = r'.source)
    (hanswer : ∀ fut buffer n, r.future? adapter = some fut → answer fut = .done buffer (.ok n) →
      ∃ bytes, arrival = .done bytes (.ok n) ∧
        (stableSlice buffer).take n = (bytes.getD []).take n)
    (h : Polls adapter answer r r' poll) : reader.Brings arrival reader' poll := by
  cases h with
  | unread hsource hne =>
      exact Or.inl ⟨by rw [hreader', hsource, hreader.1], by simpa using hne⟩
  | pending hfut hans hsource => exact Or.inl ⟨by rw [hreader', hsource, hreader.1], by simp⟩
  | failed hfut hans hsource => exact Or.inl ⟨by rw [hreader', hsource, hreader.1], by simp⟩
  | delivered hfut hans hunread hsource hnil =>
      obtain ⟨bytes, harrival, htake⟩ := hanswer _ _ _ hfut hans
      refine Or.inr ⟨bytes, _, harrival, by rw [hreader.2, hunread], ?_, fun hend => ?_⟩
      · rw [hreader', hsource, hreader.1, htake]
      · rw [← htake]
        exact hnil (by simpa using hend)

namespace Reader

variable {reader reader' : Reader} {arrival : Arrival}

theorem holds_spec {bytes : Option BoxBuf} {n : Nat}
    (h : reader.holds (.done bytes (.ok n)) = true) :
    n ≤ (bytes.getD []).length ∧
      reader.fits (.done bytes (.ok (bytes.getD []).length)) = true := by
  simpa only [holds, Bool.and_eq_true, decide_eq_true_eq] using h

theorem fits_of_holds (h : reader.holds arrival = true) : reader.fits arrival = true := by
  cases arrival with
  | pending => rfl
  | done bytes result =>
      cases result with
      | error err => rfl
      | ok n =>
          obtain ⟨hle, hfits⟩ := holds_spec h
          obtain ⟨hlt, hsize⟩ := fits_spec hfits rfl
          simp only [fits, Bool.and_eq_true, decide_eq_true_eq]
          refine ⟨Nat.lt_of_le_of_lt hle hlt, ?_⟩
          cases reader with
          | stable r =>
              rw [Option.all_eq_true]
              exact fun fut hfut => decide_eq_true (Nat.le_trans hle (hsize fut hfut))
          | fixed r =>
              rw [Option.all_eq_true]
              exact fun fut hfut => decide_eq_true (Nat.le_trans hle (hsize fut hfut))
          | group r => exact decide_eq_true (Nat.le_trans hle hsize)

theorem lent_holds {B : Type} [Bytes B] {fut buffer : B} {n : Nat}
    (hholds : ∀ bytes n, arrival = .done bytes (.ok n) →
      n ≤ (bytes.getD []).length ∧ (bytes.getD []).length ≤ size fut)
    (h : arrival.lent fut = .done buffer (.ok n)) :
    ∃ bytes, arrival = .done bytes (.ok n) ∧
      (stableSlice buffer).take n = (bytes.getD []).take n := by
  cases arrival with
  | pending => cases h
  | done bytes result =>
      obtain ⟨rfl, rfl⟩ := ReadAnswer.done.inj h
      obtain ⟨hn, hsize⟩ := hholds bytes n rfl
      refine ⟨bytes, rfl, ?_⟩
      rw [stableSlice_copyAt _ _ _ (by rwa [Nat.zero_add]), List.take_zero, List.nil_append,
        List.take_append_of_le_length hn]

theorem picked_holds {buffer : Option BoxBuf} {n : Nat} {fut : Unit}
    (h : arrival.picked fut = .done buffer (.ok n)) :
    ∃ bytes, arrival = .done bytes (.ok n) ∧
      (stableSlice buffer).take n = (bytes.getD []).take n := by
  cases arrival with
  | pending => cases h
  | done bytes result =>
      obtain ⟨rfl, rfl⟩ := ReadAnswer.done.inj h
      refine ⟨bytes, rfl, ?_⟩
      cases bytes <;> rfl

theorem call_brings (ends : Poll (List UInt8) → Prop) {poll : Poll (List UInt8)}
    {run : ∀ {B F P : Type} [Bytes B], BufReaderAdapter (List UInt8) B F P →
      (F → ReadAnswer B) → BufReaderInner (List UInt8) B F P →
      Except Panic (Poll (List UInt8) × BufReaderInner (List UInt8) B F P)}
    (hrun : ∀ {B F P : Type} [Bytes B] {adapter : BufReaderAdapter (List UInt8) B F P}
      {answer : F → ReadAnswer B} {r r' : BufReaderInner (List UInt8) B F P}
      {poll : Poll (List UInt8)}, adapter.Lawful → r.Inv →
      run adapter answer r = .ok (poll, r') →
      ∃ filled, Polls adapter answer r r' filled ∧ (ends poll → filled = .ready (.ok [])))
    (h : reader.Inv) (hholds : reader.holds arrival = true)
    (hok : reader.call arrival run = .ok (poll, reader')) :
    ∃ filled, reader.Brings arrival reader' filled ∧ (ends poll → filled = .ready (.ok [])) := by
  cases reader with
  | stable r =>
      obtain ⟨⟨value, r'⟩, hran, hret⟩ := bind_eq_ok hok
      obtain ⟨rfl, rfl⟩ := Prod.mk.inj (Except.ok.inj hret)
      obtain ⟨filled, hpolls, hends⟩ := hrun readerPlain_lawful h hran
      refine ⟨filled, brings_of_polls ⟨rfl, rfl⟩ rfl (fun fut buffer n hfut hanswer => ?_) hpolls,
        hends⟩
      refine lent_holds (fun bytes m harrival => ?_) hanswer
      obtain ⟨hle, hfits⟩ := holds_spec (harrival ▸ hholds)
      exact ⟨hle, (fits_spec hfits rfl).2 fut hfut⟩
  | fixed r =>
      obtain ⟨⟨value, r'⟩, hran, hret⟩ := bind_eq_ok hok
      obtain ⟨rfl, rfl⟩ := Prod.mk.inj (Except.ok.inj hret)
      obtain ⟨filled, hpolls, hends⟩ := hrun readerPlain_lawful h hran
      refine ⟨filled, brings_of_polls ⟨rfl, rfl⟩ rfl (fun fut buffer n hfut hanswer => ?_) hpolls,
        hends⟩
      refine lent_holds (fun bytes m harrival => ?_) hanswer
      obtain ⟨hle, hfits⟩ := holds_spec (harrival ▸ hholds)
      exact ⟨hle, (fits_spec hfits rfl).2 fut hfut⟩
  | group r =>
      obtain ⟨⟨value, r'⟩, hran, hret⟩ := bind_eq_ok hok
      obtain ⟨rfl, rfl⟩ := Prod.mk.inj (Except.ok.inj hret)
      obtain ⟨filled, hpolls, hends⟩ := hrun readerGroup_lawful h hran
      exact ⟨filled, brings_of_polls ⟨rfl, rfl⟩ rfl
        (fun _ _ _ _ hanswer => picked_holds hanswer) hpolls, hends⟩

end Reader

/-! ## Runs -/

theorem DuplexStream.Fresh.received {stream : DuplexStream} (h : stream.Fresh) :
    stream.reader.delivered = [] := by
  cases h with
  | @fixedBufStream readSlot writeSlot stream hnew =>
      rcases readSlot with - | readSlot <;> rcases writeSlot with - | writeSlot
      · cases hnew
      · cases hnew
      · cases hnew
      · obtain rfl := Except.ok.inj hnew
        rfl
  | _ => rfl

namespace End

/-- A side by itself: its writer keeps what it accepted, its reader what it received. -/
structure Inv (e : End) : Prop where
  writer : e.stream.writer.Inv
  sound : e.stream.writer.Sound
  wrote : e.stream.writer.total = e.accepted
  reader : e.stream.reader.Inv
  read : e.taken ++ e.unread = e.received

theorem sent_append_held (h : End) : h.sent ++ h.held = h.stream.writer.total := by
  rw [sent, held, List.append_assoc, List.take_append_drop]
  rfl

theorem Inv.taken_prefix {e : End} (h : e.Inv) : e.taken <+: e.received := ⟨_, h.read⟩

theorem Inv.fresh {stream : DuplexStream} (h : stream.Fresh) :
    Inv ⟨stream, [], [], false, none⟩ := by
  have hroom : HasRoom (zeroed defaultBufSize) := by
    show 0 < (List.replicate defaultBufSize (0 : UInt8)).length
    rw [List.length_replicate]
    decide
  have hwithin : ∀ {B : Type} [Bytes B] (buffer : B),
      BufReaderInner.Within ⟨buffer, (⟨0, 0⟩ : Range)⟩ := by
    intro B _ buffer
    refine ⟨Nat.le_refl _, ?_, by simp [Range.isEmpty]⟩
    show 0 < 2 ^ 64
    decide
  have hready : ∀ {B F P : Type} [Bytes B] (buffer : B) (shared : P),
      (BufReaderInner.new buffer [] 0 0 shared : BufReaderInner (List UInt8) B F P).Inv := by
    intro B F P _ buffer shared
    refine ⟨by simp [BufReaderInner.new], fun view hview => ?_⟩
    obtain rfl := BufReaderState.ready.inj hview
    exact hwithin buffer
  have hnothing : ∀ {B F P : Type} [Bytes B] (buffer : B) (shared : P),
      [] ++ (BufReaderInner.new buffer [] 0 0 shared : BufReaderInner (List UInt8) B F P).unread =
        [] :=
    fun _ _ => (List.nil_append _).trans (BufReaderInner.stableSlice_of_isEmpty rfl)
  have hempty : ∀ {B P : Type} [Bytes B] (buffer : B) (shared : P),
      (BufWriterInner.new buffer [] 0 shared : BufWriterInner (List UInt8) B P).total = [] := by
    intro B P _ buffer shared
    rw [BufWriterInner.total, BufWriterInner.held_of_view rfl, View.stableSlice_rangeTo]
    rfl
  cases h with
  | bufStream =>
      exact ⟨⟨⟨_, rfl, hroom, Nat.zero_le _⟩, trivial⟩, .ready rfl (Nat.zero_le _),
        hempty _ (), hready _ (), hnothing (F := BoxBuf) (zeroed defaultBufSize) ()⟩
  | @fixedBufStream readSlot writeSlot stream hnew =>
      cases readSlot with
      | none => cases hnew
      | some readSlot =>
          cases writeSlot with
          | none => cases hnew
          | some writeSlot =>
              obtain rfl := Except.ok.inj hnew
              exact ⟨⟨⟨_, rfl, hroom, Nat.zero_le _⟩, trivial⟩, .ready rfl (Nat.zero_le _),
                hempty _ (), hready _ (),
                hnothing (B := Fixed) (F := Fixed) ⟨zeroed defaultBufSize, readSlot⟩ ()⟩
  | @shareBufStream set hset =>
      exact ⟨⟨⟨_, rfl, by simp [RoomIfAny], Nat.zero_le _⟩, hset⟩, .ready rfl (Nat.zero_le _),
        hempty _ set, hready _ [],
        hnothing (B := Option BoxBuf) (F := Unit) none ([] : List BoxBuf)⟩

end End

namespace Connection

section Side

variable {e : End} {transit : List UInt8} {spent : Bool} {depth : Nat}

theorem takesWhole_iff {writer : Writer} {answer : Poll Nat} :
    writer.takesWhole answer = true ↔ writer.Whole answer :=
  WriterRun.whole_iff (s := ⟨writer, []⟩)

/-- What a side may have done when it is over with a move. -/
structure Step (transit : List UInt8) (spent : Bool) (e e' : End) : Prop where
  inv : e'.Inv
  sent : e.sent <+: e'.sent
  taken : e.taken <+: e'.taken
  received : ∃ bytes, bytes <+: transit ∧ e'.received = e.received ++ bytes
  ended : e'.ended = true → e.ended = true ∨ spent = true ∧ e.unread = []

theorem withSet_parts {stream : DuplexStream} {f : WriteBufferSet BoxBuf → WriteBufferSet BoxBuf}
    (hf : ∀ set, GivesRoom set → GivesRoom (f set)) (h : stream.writer.Inv)
    (hsound : stream.writer.Sound) :
    (stream.withSet f).writer.Inv ∧ stream.writer.Took (stream.withSet f).writer [] ∧
      (stream.withSet f).reader = stream.reader := by
  cases stream with
  | shareBufStream inner =>
      exact ⟨⟨h.view, hf _ h.shared⟩, ⟨⟨hsound.view, hsound.pending⟩, (List.append_nil _).symm,
        List.prefix_refl _⟩, rfl⟩
  | _ => exact ⟨h, .refl hsound, rfl⟩

theorem Step.wrote {stream : DuplexStream} {bytes : List UInt8} (h : e.Inv)
    (hlive : e.dropped = none) (hreader : stream.reader = e.stream.reader)
    (hinv : stream.writer.Inv) (htook : e.stream.writer.Took stream.writer bytes) :
    Step transit spent e { e with stream := stream, accepted := e.accepted ++ bytes } where
  inv :=
    { writer := hinv
      sound := htook.sound
      wrote := by
        show stream.writer.total = e.accepted ++ bytes
        rw [htook.total, h.wrote]
      reader := by
        show stream.reader.Inv
        rw [hreader]
        exact h.reader
      read := by
        show e.taken ++ stream.reader.unread = stream.reader.delivered
        rw [hreader]
        exact h.read }
  sent := by
    simpa [End.sent, hlive] using htook.delivered
  taken := List.prefix_refl _
  received := ⟨[], List.nil_prefix, by
    show stream.reader.delivered = e.stream.reader.delivered ++ []
    rw [hreader, List.append_nil]⟩
  ended := Or.inl

theorem Step.set {f : WriteBufferSet BoxBuf → WriteBufferSet BoxBuf} (h : e.Inv)
    (hlive : e.dropped = none) (hf : ∀ set, GivesRoom set → GivesRoom (f set)) :
    Step transit spent e { e with stream := e.stream.withSet f } := by
  obtain ⟨hinv, htook, hreader⟩ := withSet_parts hf h.writer h.sound
  have hstep : Step transit spent e _ := Step.wrote h hlive hreader hinv htook
  rwa [List.append_nil] at hstep

theorem Step.read {stream : DuplexStream} {took bytes : List UInt8} {ended : Bool} (h : e.Inv)
    (hwriter : stream.writer = e.stream.writer) (hinv : stream.reader.Inv)
    (hbytes : bytes <+: transit)
    (hdelivered : stream.reader.delivered = e.stream.reader.delivered ++ bytes)
    (hunread : took ++ stream.reader.unread = e.stream.reader.unread ++ bytes)
    (hended : ended = true → e.ended = true ∨ spent = true ∧ e.unread = []) :
    Step transit spent e { e with stream := stream, taken := e.taken ++ took, ended := ended } where
  inv :=
    { writer := by
        show stream.writer.Inv
        rw [hwriter]
        exact h.writer
      sound := by
        show stream.writer.Sound
        rw [hwriter]
        exact h.sound
      wrote := by
        show stream.writer.total = e.accepted
        rw [hwriter]
        exact h.wrote
      reader := hinv
      read := by
        show e.taken ++ took ++ stream.reader.unread = stream.reader.delivered
        rw [List.append_assoc, hunread, hdelivered, ← List.append_assoc]
        exact congrArg (· ++ bytes) h.read }
  sent := by
    have hsame : End.sent { e with stream := stream, taken := e.taken ++ took, ended := ended } =
        e.sent := by
      unfold End.sent
      rw [hwriter]
    exact hsame.symm ▸ List.prefix_refl _
  taken := List.prefix_append _ _
  received := ⟨bytes, hbytes, hdelivered⟩
  ended := hended

/-- What a read brings was on its way, and is nothing only when nothing more is to come. -/
theorem brought_transit {recv : Recv} {bytes : Option BoxBuf} {n : Nat}
    (h : hands transit spent e recv = true)
    (harrival : recv.arrival transit = .done bytes (.ok n)) :
    (bytes.getD []).take n <+: transit ∧ ((bytes.getD []).take n = [] → spent = true) := by
  cases recv with
  | pending => cases harrival
  | failed err =>
      obtain ⟨-, herr⟩ := Arrival.done.inj harrival
      cases herr
  | got m rest =>
      obtain ⟨rfl, hn⟩ := Arrival.done.inj harrival
      obtain rfl := Except.ok.inj hn
      simp only [hands, Bool.and_eq_true, decide_eq_true_eq, Bool.or_eq_true] at h
      have htake : ((transit.take m ++ rest).take m) = transit.take m := by
        rw [List.take_append_of_le_length (Nat.le_of_eq (List.length_take_of_le h.2.1).symm),
          List.take_take, Nat.min_self]
      rw [Option.getD_some, htake]
      refine ⟨List.take_prefix _ _, fun hnil => ?_⟩
      have hlength := congrArg List.length hnil
      rw [List.length_take_of_le h.2.1, List.length_nil] at hlength
      exact h.2.2.resolve_left (by omega)
  | closed =>
      obtain ⟨rfl, hn⟩ := Arrival.done.inj harrival
      simp only [hands, Bool.and_eq_true] at h
      exact ⟨by simp, fun _ => h.2⟩

/-- A read that brought something, or was passed what was unread. -/
theorem Step.brings {recv : Recv} {stream : DuplexStream} {took : List UInt8}
    {filled : Poll (List UInt8)} {ended : Bool} (h : e.Inv)
    (hhands : hands transit spent e recv = true) (hwriter : stream.writer = e.stream.writer)
    (hinv : stream.reader.Inv)
    (hfresh : ∃ bytes, stream.reader.delivered = e.stream.reader.delivered ++ bytes ∧
      took ++ stream.reader.unread = e.stream.reader.unread ++ bytes)
    (hbrings : e.stream.reader.Brings (recv.arrival transit) stream.reader filled)
    (hended : ended = true → e.ended = true ∨ filled = .ready (.ok [])) :
    Step transit spent e
      { e with stream := stream, taken := e.taken ++ took, ended := ended } := by
  obtain ⟨bytes, hdelivered, hunread⟩ := hfresh
  rcases hbrings with ⟨hsame, hgoes⟩ | ⟨brought, n, harrival, hnone, hbrought, hnil⟩
  · obtain rfl : bytes = [] := by simpa [hsame] using hdelivered
    refine Step.read h hwriter hinv List.nil_prefix hdelivered hunread fun hended' => ?_
    rcases hended hended' with hbefore | hend
    · exact Or.inl hbefore
    · exact absurd hend hgoes
  · obtain ⟨hfront, hspent⟩ := brought_transit hhands harrival
    obtain rfl : (brought.getD []).take n = bytes :=
      List.append_cancel_left (hbrought.symm.trans hdelivered)
    refine Step.read h hwriter hinv hfront hdelivered hunread fun hended' => ?_
    rcases hended hended' with hbefore | hend
    · exact Or.inl hbefore
    · exact Or.inr ⟨hspent (hnil hend), hnone⟩

/-- A side that is permitted a move makes it. -/
theorem stepped (depth : Nat) {move : ConnectionMove} (h : e.Inv) (hlive : e.dropped = none)
    (hpermits : permitsAt transit spent e move = true) :
    ∃ e', execAt (depth + 2) transit e move = .ok e' ∧ Step transit spent e e' := by
  cases move with
  | pollWrite data answer =>
      obtain ⟨poll, writer', hwrite, hinv, -⟩ :=
        Writer.pollWrite_spec h.writer (takesWhole_iff.mp hpermits) data depth
      have htook := Writer.pollWrite_took h.sound hwrite
      obtain ⟨stream, hstream, rfl, hreader⟩ := DuplexStream.pollWrite_parts hwrite
      refine ⟨_, ?_, Step.wrote h hlive hreader hinv htook⟩
      simp only [execAt, hstream, bind, Except.bind, pure, Except.pure]
  | pollFlush answer =>
      obtain ⟨poll, writer', hflush, hinv, -⟩ :=
        Writer.pollFlush_spec h.writer (takesWhole_iff.mp hpermits)
      have htook := Writer.pollFlush_took h.sound hflush
      obtain ⟨stream, hstream, rfl, hreader⟩ := DuplexStream.pollFlush_parts hflush
      have hstep : Step transit spent e _ := Step.wrote h hlive hreader hinv htook
      rw [List.append_nil] at hstep
      refine ⟨_, ?_, hstep⟩
      simp only [execAt, hstream, bind, Except.bind, pure, Except.pure]
  | pollClose =>
      have hstep : Step transit spent e _ := Step.wrote h hlive rfl h.writer (.refl h.sound)
      rw [List.append_nil] at hstep
      exact ⟨_, rfl, hstep⟩
  | pollFillBuf recv =>
      simp only [permitsAt] at hpermits
      have hholds : e.stream.reader.holds (recv.arrival transit) = true :=
        (Bool.and_eq_true_iff.mp hpermits).1
      obtain ⟨poll, reader', hfill, hinv, ⟨bytes, hdelivered, hunread⟩, -⟩ :=
        Reader.pollFillBuf_spec h.reader (Reader.fits_of_holds hholds)
      obtain ⟨filled, hbrings, hends⟩ := Reader.call_brings (· = .ready (.ok []))
        (fun hadapter hinv hok => ⟨_, pollFillBuf_polls hadapter hinv hok, id⟩) h.reader hholds
        hfill
      obtain ⟨stream, hstream, rfl, hwriter⟩ := DuplexStream.pollFillBuf_parts hfill
      have hstep : Step transit spent e { e with
          stream := stream, taken := e.taken ++ [], ended := e.ended || isEnd poll } :=
        Step.brings h hpermits hwriter hinv ⟨bytes, hdelivered, hunread⟩ hbrings
          fun hended => (Bool.or_eq_true_iff.mp hended).imp_right (hends <| nil_of_isEnd ·)
      rw [List.append_nil] at hstep
      refine ⟨_, ?_, hstep⟩
      simp only [execAt, hstream, bind, Except.bind, pure, Except.pure]
  | pollRead len recv =>
      simp only [permitsAt] at hpermits
      have hholds : e.stream.reader.holds (recv.arrival transit) = true :=
        (Bool.and_eq_true_iff.mp hpermits).1
      obtain ⟨poll, reader', hread, hinv, bytes, hdelivered, hunread⟩ :=
        Reader.pollRead_spec h.reader (Reader.fits_of_holds hholds) len
      obtain ⟨filled, hbrings, hends⟩ := Reader.call_brings
        (fun poll => 0 < len ∧ poll = .ready (.ok []))
        (fun hadapter hinv hok => (pollRead_fills hadapter hinv hok).imp
          fun _ hfilled => ⟨hfilled.1, fun hend => hfilled.2 hend.1 hend.2⟩) h.reader hholds hread
      obtain ⟨stream, hstream, rfl, hwriter⟩ := DuplexStream.pollRead_parts hread
      have hended : (e.ended || 0 < len && isEnd poll) = true →
          e.ended = true ∨ filled = .ready (.ok []) := by
        intro hended
        refine (Bool.or_eq_true_iff.mp hended).imp_right fun hend => ?_
        rw [Bool.and_eq_true, decide_eq_true_eq] at hend
        exact hends ⟨hend.1, nil_of_isEnd hend.2⟩
      have hstep : Step transit spent e _ :=
        Step.brings h hpermits hwriter hinv ⟨bytes, hdelivered, hunread⟩ hbrings hended
      refine ⟨_, ?_, hstep⟩
      simp only [execAt, hstream, bind, Except.bind, pure, Except.pure]
  | consume amt =>
      obtain ⟨hinv, hdelivered, hunread⟩ := Reader.consume_spec h.reader hpermits
      obtain ⟨hreader, hwriter⟩ := e.stream.consume_parts amt
      rw [← hreader] at hinv hdelivered hunread
      refine ⟨_, rfl, Step.read h hwriter hinv List.nil_prefix ?_ ?_ Or.inl⟩
      · rw [hdelivered, List.append_nil]
      · rw [hunread, List.append_nil]
        exact List.take_append_drop _ _
  | insert buffer =>
      exact ⟨_, rfl, Step.set h hlive fun _ hset => hset.insert (of_decide_eq_true hpermits)⟩
  | get => exact ⟨_, rfl, Step.set h hlive fun _ hset => hset.get.2⟩
  | drop landed =>
      refine ⟨_, rfl, ⟨h.writer, h.sound, h.wrote, h.reader, h.read⟩, ?_, List.prefix_refl _,
        ⟨[], List.nil_prefix, (List.append_nil _).symm⟩, Or.inl⟩
      simp [End.sent, hlive]

end Side

/-- What a side received is the front of what the other sent, and it was told of the end
once it had taken all that was sent by one that is gone. -/
structure Inv (s : Party → End) : Prop where
  ends : ∀ party, (s party).Inv
  carried : ∀ party, (s party).received <+: (s party.other).sent
  told : ∀ party, (s party).ended = true →
    (s party.other).dropped.isSome = true ∧ (s party).taken = (s party.other).sent

variable {s : Party → End} {depth : Nat}

theorem Inv.under_way (h : Inv s) (party : Party) :
    (s party).received ++ transit s party = (s party.other).sent :=
  List.prefix_iff_eq_append.mp (h.carried party)

theorem Inv.init (h : (machine depth).init s) : Inv s := by
  have hfresh : ∀ party, (s party).Inv ∧ (s party).received = [] ∧ (s party).ended = false := by
    intro party
    obtain ⟨stream, hstream, heq⟩ := h party
    rw [heq]
    exact ⟨.fresh hstream, hstream.received, rfl⟩
  constructor
  · exact fun party => (hfresh party).1
  · intro party
    rw [(hfresh party).2.1]
    exact List.nil_prefix
  · intro party hended
    rw [(hfresh party).2.2] at hended
    exact Bool.noConfusion hended

/-- A side made a move while the other did nothing. -/
theorem Inv.step {party : Party} {move : ConnectionMove} (h : Inv s) (depth : Nat)
    (hpermits : permits s (party, move) = true) :
    ∃ s', exec (depth + 2) s (party, move) = .ok s' ∧ Inv s' := by
  obtain ⟨hlive, hmove⟩ := Bool.and_eq_true_iff.mp hpermits
  rw [Option.isNone_iff_eq_none] at hlive
  obtain ⟨e, hexec, hstep⟩ := stepped depth (h.ends party) hlive hmove
  have hself : Function.update s party e party = e := Function.update_self ..
  have hother : Function.update s party e party.other = s party.other :=
    Function.update_of_ne party.other_ne _ _
  have hcarries : ∀ side, (Function.update s party e side).received <+:
      (Function.update s party e side.other).sent := by
    intro side
    by_cases hside : side = party
    · rw [hside, hself, hother, ← h.under_way party]
      obtain ⟨bytes, hbytes, hreceived⟩ := hstep.received
      rw [hreceived]
      exact (List.prefix_append_right_inj _).mpr hbytes
    · obtain rfl := Party.eq_other hside
      rw [hother, Party.other_other, hself]
      have hcarried := h.carried party.other
      rw [Party.other_other] at hcarried
      exact hcarried.trans hstep.sent
  refine ⟨Function.update s party e, ?_, ?_, hcarries, ?_⟩
  · simp only [exec, hexec, bind, Except.bind, pure, Except.pure]
  · intro side
    by_cases hside : side = party
    · rw [hside, hself]
      exact hstep.inv
    · rw [Function.update_of_ne hside]
      exact h.ends side
  · intro side hended
    by_cases hside : side = party
    · rw [hside, hself] at hended
      rw [hside, hself, hother]
      have hall : (s party.other).dropped.isSome = true ∧
          (s party.other).sent <+: (s party).taken := by
        rcases hstep.ended hended with hbefore | ⟨hspent, hunread⟩
        · obtain ⟨hgone, htaken⟩ := h.told party hbefore
          exact ⟨hgone, htaken ▸ List.prefix_refl _⟩
        · obtain ⟨hgone, hempty⟩ := Bool.and_eq_true_iff.mp hspent
          have hread := (h.ends party).read
          have hway := h.under_way party
          rw [hunread, List.append_nil] at hread
          rw [List.isEmpty_iff.mp hempty, List.append_nil, ← hread] at hway
          exact ⟨hgone, hway ▸ List.prefix_refl _⟩
      have hback : e.taken <+: (s party.other).sent := by
        have hcarried := hcarries party
        rw [hself, hother] at hcarried
        exact hstep.inv.taken_prefix.trans hcarried
      exact ⟨hall.1, hback.eq_of_length_le (hall.2.trans hstep.taken).length_le⟩
    · obtain rfl := Party.eq_other hside
      rw [hother] at hended
      have hgone := (h.told party.other hended).1
      rw [Party.other_other, hlive] at hgone
      exact Bool.noConfusion hgone

theorem Inv.of_reach (h : Reach (machine (depth + 2)) Any s) : Inv s := by
  refine h.invariant (fun _ hinit => .init hinit) fun s move s' hinv hpermits _ hok => ?_
  obtain ⟨s'', hexec, hinv'⟩ := hinv.step depth hpermits
  obtain rfl := Except.ok.inj (hexec.symm.trans hok)
  exact hinv'

/-- At every time what a side took, has unread, is on its way to it and is held by the
other is what the other accepted, in order. A side that is told of the end has taken all
but what the other took with it when it was dropped, a flush that is through leaves
nothing behind, and no call panics. -/
theorem bytes_carried (h : Reach (machine (depth + 2)) Any s) (party : Party) :
    (s party).taken ++ (s party).unread ++ transit s party ++ (s party.other).held =
      (s party.other).accepted ∧
    ((s party).ended = true → (s party.other).dropped.isSome = true ∧
      (s party).taken ++ (s party.other).held = (s party.other).accepted) ∧
    (∀ answer stream, (s party).stream.writer.takesWhole answer = true →
      (s party).stream.pollFlush answer = .ok (.ready (.ok ()), stream) →
      stream.writer.delivered = (s party).accepted) ∧
    ∀ move, (machine (depth + 2)).permits s (party, move) →
      ∃ s', (machine (depth + 2)).exec s (party, move) = .ok s' := by
  have hinv := Inv.of_reach h
  have hwrote : (s party.other).sent ++ (s party.other).held = (s party.other).accepted :=
    (End.sent_append_held _).trans (hinv.ends party.other).wrote
  refine ⟨?_, fun hended => ?_, fun answer stream hwhole hflush => ?_, fun move hpermits => ?_⟩
  · rw [(hinv.ends party).read, hinv.under_way party, hwrote]
  · obtain ⟨hgone, htaken⟩ := hinv.told party hended
    exact ⟨hgone, by rw [htaken, hwrote]⟩
  · obtain ⟨poll, writer', hran, -, htotal, hheld⟩ :=
      Writer.pollFlush_spec (hinv.ends party).writer (takesWhole_iff.mp hwhole)
    obtain ⟨stream', hstream, rfl, -⟩ := DuplexStream.pollFlush_parts hran
    obtain ⟨rfl, rfl⟩ := Prod.mk.inj (Except.ok.inj (hstream.symm.trans hflush))
    rw [Writer.total, hheld rfl, List.append_nil] at htotal
    rw [htotal, (hinv.ends party).wrote]
  · obtain ⟨s', hexec, -⟩ := hinv.step depth hpermits
    exact ⟨s', hexec⟩

/-- Five bytes are written to a stream and it is dropped while it writes the last two, of
which one gets out. The other side is told of the end behind that one. -/
theorem last_byte_left_behind : ∃ s : Party → End,
    ((s .server).taken = [1, 2, 3, 4] ∧ (s .client).accepted = [1, 2, 3, 4, 5]) ∧
      (s .server).taken ++ (s .client).held = (s .client).accepted := by
  obtain ⟨s, hreach, htest⟩ := Reach.of_replay (M := machine 2) permits
    (fun s move h => ⟨h, trivial⟩)
    (.start (s := fun _ => ⟨ShareBufStream.new ⟨[], 4⟩, [], [], false, none⟩)
      fun _ => ⟨_, .shareBufStream ⟨by decide, by simp⟩, rfl⟩)
    [(.client, .pollWrite [1, 2, 3] .pending), (.server, .pollFillBuf .pending),
      (.client, .pollFlush .pending), (.client, .pollFlush (.ready (.ok 3))),
      (.server, .pollFillBuf (.got 2 [0])), (.server, .consume 1),
      (.client, .pollWrite [4, 5] .pending), (.client, .pollFlush .pending), (.client, .drop 1),
      (.server, .pollRead 4 .pending), (.server, .pollRead 4 (.got 2 [])),
      (.server, .pollRead 4 .closed)]
    (fun s => (s .server).ended ∧ (s .server).taken = [1, 2, 3, 4] ∧
      (s .client).accepted = [1, 2, 3, 4, 5]) rfl
  obtain ⟨hended, hbytes⟩ := of_decide_eq_true htest
  exact ⟨s, hbytes, ((bytes_carried hreach .server).2.1 hended).2⟩

end Connection

end Inel.Io
