import Inel.Base.Weights
import Inel.Io.BufReader
import Inel.Io.BufWriter
import Inel.Op.Group

/-!
# Sets of buffers

The buffers of a read set are provided to the kernel, which picks one for each read
and says which in the result. A read that is given up leaves its buffer on a list
the set recycles. The buffers of a write set wait in a pool. Readers and writers get
their buffers from the sets, operations carry them, and the user holds the rest. A
buffer is known by its address, and addresses are not used twice.
-/

namespace Inel.Io

open Inel.Reactor SlotTable Transitions

/-- A box as a buffer; what is written to it is not followed. -/
instance : StableBufferMut Boxed where
  size := Boxed.size
  copyAt buffer _ _ := buffer
  size_copyAt _ _ _ := rfl

/-- Picks the slot of a slab that is filled next. -/
structure Chooser where
  pick : Slab Boxed → Nat
  admits : ∀ slab : Slab Boxed, slab.admits (pick slab) = true

def Chooser.first : Chooser where
  pick slab := slab.slots.findIdx (·.isNone)
  admits slab := by
    unfold Slab.admits
    cases hslot : slab.slots[slab.slots.findIdx (·.isNone)]? with
    | none =>
        have hlen : slab.slots.findIdx (·.isNone) ≤ slab.slots.length := List.findIdx_le_length
        have hge := List.getElem?_eq_none_iff.mp hslot
        have hall := List.findIdx_eq_length.mp (Nat.le_antisymm hlen hge)
        simp only [Bool.and_eq_true, beq_iff_eq, List.all_eq_true]
        refine ⟨Nat.le_antisymm hlen hge, fun slot hmem => ?_⟩
        simpa [Option.isSome_iff_ne_none] using hall slot hmem
    | some slot =>
        obtain ⟨hlt, rfl⟩ := List.getElem?_eq_some_iff.mp hslot
        exact List.findIdx_getElem (w := hlt)

/-! ## The read set -/

/-- What the kernel answered a read and what it filled: a number and the buffer it
was told under that number. -/
structure Answer where
  res : RingResult
  filled : Option (UInt16 × Boxed)
  named : res.bufferId = filled.map Prod.fst
  last : res.hasMore = false
deriving DecidableEq, Repr

def Answer.fiveBytes : Answer := ⟨⟨5, 1⟩, some (0, ⟨0, 16⟩), by decide, by decide⟩

/-- A read of a set: the kernel has it, has answered it, or its answer was handled. -/
inductive ReadFuture
  | inFlight
  | posted (answer : Answer)
  | arrived (answer : Answer)
deriving DecidableEq, Repr

/-- The kernel was told of `provided`; of those it looked at it took `held` and
`refused` the others. -/
structure ReadSet where
  group : ReadBufferGroup Boxed
  provided : List (UInt16 × Boxed)
  held : List (UInt16 × Boxed)
  refused : List (UInt16 × Boxed)
deriving DecidableEq, Repr

namespace ReadSet

/-- Polls a `ProvideBuffer`. Its entry is built and submitted the first time. -/
def submit (choose : Chooser) (provide : ProvideBuffer) (set : ReadSet) :
    ProvideBuffer × ReadSet :=
  match provide.buffer, provide.entry set.group (choose.pick set.group.buffers) with
  | some buffer, some (.provideBuffers _ _ _ _ id, provide, group) =>
      (provide, { set with group := group, provided := set.provided ++ [(id, buffer)] })
  | _, _ => (provide, set)

/-- The `ProvideBuffer` runs detached. -/
def insert (choose : Chooser) (buffer : Boxed) (set : ReadSet) : ReadSet :=
  (set.submit choose (.new buffer)).2

/-- `n` rounds of the loop in `recycle`. -/
def recycleUpTo (choose : Chooser) : Nat → ReadSet → ReadSet
  | 0, set => set
  | n + 1, set =>
      match set.group.getCancelled with
      | none => set
      | some (buffer, group) =>
          recycleUpTo choose n ({ set with group := group }.insert choose buffer)

def recycle (choose : Chooser) (set : ReadSet) : ReadSet :=
  set.recycleUpTo choose set.group.cancelled.length

/-- The kernel runs the oldest entry, and takes the buffer unless the entry fails. -/
def run (accepted : Bool) (set : ReadSet) : ReadSet :=
  match set.provided with
  | [] => set
  | entry :: provided =>
      if accepted then { set with provided := provided, held := set.held ++ [entry] }
      else { set with provided := provided, refused := set.refused ++ [entry] }

end ReadSet

/-- Polls a read. A result that is there takes its buffer from the group. -/
def ReadFuture.poll (future : ReadFuture) (set : ReadSet) :
    Except Panic (ReadAnswer (Option Boxed) × ReadSet) :=
  match future with
  | .arrived answer => do
      let ((buffer, result), group) ← ReadGroup.result set.group answer.res
      return (.done buffer result, { set with group := group })
  | _ => .ok (.pending, set)

/-- What the kernel filled for a read whose result was not taken. -/
def ReadFuture.filled? : ReadFuture → Option (UInt16 × Boxed)
  | .inFlight => none
  | .posted answer => answer.filled
  | .arrived answer => answer.filled

/-! ## Readers and reads -/

abbrev GroupReader := BufReaderState (Option Boxed) ReadFuture

namespace GroupReader

def buffer? : GroupReader → Option Boxed
  | .ready view => view.inner
  | _ => none

def future? : GroupReader → Option ReadFuture
  | .pending future => some future
  | _ => none

end GroupReader

/-- The adapter of a `GroupBufReader`; `source` is not followed. -/
def readAdapter (choose : Chooser) : BufReaderAdapter Unit (Option Boxed) ReadFuture ReadSet :=
  .group (fun source _ _ => source) .inFlight (ReadSet.insert choose) (ReadSet.recycle choose)

/-- The set and all that lives on it. Of `provides` the entry is built once the buffer
is gone. The reads in `abandoned` were given up before their result was handled. -/
structure ReadSide where
  set : ReadSet
  provides : List ProvideBuffer
  reads : List ReadFuture
  readers : List GroupReader
  abandoned : List ReadFuture
deriving DecidableEq, Repr

/-- Where a read is. -/
inductive Reading
  | read (i : Nat)
  | reader (i : Nat)
  | abandoned (i : Nat)
deriving DecidableEq, Repr

inductive ReadMove
  | insert (choose : Chooser) (i : Nat)
  | recycle (choose : Chooser)
  /-- `ProvideBuffer::new` and what is done with it. -/
  | provide (i : Nat)
  | pollProvide (choose : Chooser) (i : Nat)
  | dropProvide (i : Nat)
  | read (choose : Chooser)
  | pollRead (choose : Chooser) (i : Nat)
  | dropRead (i : Nat)
  | supplyTo
  | fill (choose : Chooser) (i : Nat)
  | consume (choose : Chooser) (i amt : Nat)
  /-- Also `into_inner`, which keeps the source only. -/
  | dropReader (i : Nat)
  /-- The kernel runs an entry, answers a read, and the ring handles the answer. -/
  | run (accepted : Bool)
  | post (who : Reading) (answer : Answer)
  | handle (who : Reading)

namespace ReadSide

def unwrapNone : Panic := .panicked "called `Option::unwrap()` on a `None` value"

/-- A read is given up: a result that is there is consumed, and one that still comes
will be. -/
def abandon (side : ReadSide) : ReadFuture → Except Panic ReadSide
  | .arrived answer => do
      let group ← ReadGroup.consume side.set.group answer.res
      return { side with set := { side.set with group := group } }
  | future => .ok { side with abandoned := side.abandoned ++ [future] }

/-- The future of `read` with its result: the buffer, unless the read failed. -/
def finishRead (choose : Chooser) (side : ReadSide) (user : List Boxed) :
    Option Boxed → Except OsError Nat → Except Panic (ReadSide × List Boxed)
  | some buffer, .ok _ => .ok (side, user ++ [buffer])
  | none, .ok _ => .error unwrapNone
  | some buffer, .error _ => .ok ({ side with set := side.set.insert choose buffer }, user)
  | none, .error _ => .ok (side, user)

def pollRead (choose : Chooser) (side : ReadSide) (user : List Boxed) (i : Nat)
    (future : ReadFuture) : Except Panic (ReadSide × List Boxed) := do
  let (answer, set) ← future.poll side.set
  match answer with
  | .pending => return (side, user)
  | .done buffer result =>
      finishRead choose { side with set := set, reads := side.reads.eraseIdx i } user buffer result

def answers (answer : ReadAnswer (Option Boxed)) : ReadFuture → ReadAnswer (Option Boxed)
  | .arrived _ => answer
  | _ => .pending

def pollReader (set : ReadSet) (reader : GroupReader) :
    Except Panic (ReadAnswer (Option Boxed) × ReadSet) :=
  match reader with
  | .pending future => future.poll set
  | _ => .ok (.pending, set)

def fill (choose : Chooser) (side : ReadSide) (i : Nat) (reader : GroupReader) :
    Except Panic ReadSide := do
  let (answer, set) ← pollReader side.set reader
  let (_, r) ← BufReaderInner.pollFill (readAdapter choose) ⟨(), reader, set⟩ (answers answer)
  return { side with set := r.shared, readers := side.readers.set i r.state }

def consume (choose : Chooser) (side : ReadSide) (i amt : Nat) (reader : GroupReader) :
    ReadSide :=
  let r := BufReaderInner.consume (readAdapter choose) ⟨(), reader, side.set⟩ amt
  { side with set := r.shared, readers := side.readers.set i r.state }

/-- A buffer in the hands of the reader goes with it. -/
def dropReader (side : ReadSide) (i : Nat) (reader : GroupReader) : Except Panic ReadSide :=
  let side := { side with readers := side.readers.eraseIdx i }
  match reader with
  | .pending future => side.abandon future
  | _ => .ok side

def future? (side : ReadSide) : Reading → Option ReadFuture
  | .read i => side.reads[i]?
  | .reader i => side.readers[i]?.bind GroupReader.future?
  | .abandoned i => side.abandoned[i]?

def setFuture (side : ReadSide) (future : ReadFuture) : Reading → ReadSide
  | .read i => { side with reads := side.reads.set i future }
  | .reader i => { side with readers := side.readers.set i (.pending future) }
  | .abandoned i => { side with abandoned := side.abandoned.set i future }

/-- The buffer the kernel filled is no longer its own. -/
def post (side : ReadSide) (who : Reading) (answer : Answer) : ReadSide :=
  let side := side.setFuture (.posted answer) who
  match answer.filled with
  | none => side
  | some entry => { side with set := { side.set with held := side.set.held.erase entry } }

/-- The completion of a read is handled: a future may take the result, a cancellation
consumes it. -/
def handle (side : ReadSide) (who : Reading) (answer : Answer) : Except Panic ReadSide :=
  match who with
  | .abandoned i => { side with abandoned := side.abandoned.eraseIdx i }.abandon (.arrived answer)
  | who => .ok (side.setFuture (.arrived answer) who)

/-- `user` are the buffers in the hands of the user. A move that is about something
that is not there does nothing. -/
def exec (side : ReadSide) (user : List Boxed) :
    ReadMove → Except Panic (ReadSide × List Boxed)
  | .insert choose i =>
      match user[i]? with
      | none => .ok (side, user)
      | some buffer =>
          .ok ({ side with set := side.set.insert choose buffer }, user.eraseIdx i)
  | .recycle choose => .ok ({ side with set := side.set.recycle choose }, user)
  | .provide i =>
      match user[i]? with
      | none => .ok (side, user)
      | some buffer =>
          .ok ({ side with provides := side.provides ++ [.new buffer] }, user.eraseIdx i)
  | .pollProvide choose i =>
      match side.provides[i]? with
      | none => .ok (side, user)
      | some provide =>
          let (provide, set) := side.set.submit choose provide
          .ok ({ side with set := set, provides := side.provides.set i provide }, user)
  | .dropProvide i => .ok ({ side with provides := side.provides.eraseIdx i }, user)
  | .read choose =>
      .ok ({ side with set := side.set.recycle choose, reads := side.reads ++ [.inFlight] }, user)
  | .pollRead choose i =>
      match side.reads[i]? with
      | none => .ok (side, user)
      | some future => side.pollRead choose user i future
  | .dropRead i =>
      match side.reads[i]? with
      | none => .ok (side, user)
      | some future => do
          let side ← { side with reads := side.reads.eraseIdx i }.abandon future
          return (side, user)
  | .supplyTo =>
      let r : BufReaderInner Unit (Option Boxed) ReadFuture ReadSet := .new none () 0 0 side.set
      .ok ({ side with readers := side.readers ++ [r.state] }, user)
  | .fill choose i =>
      match side.readers[i]? with
      | none => .ok (side, user)
      | some reader => do
          let side ← side.fill choose i reader
          return (side, user)
  | .consume choose i amt =>
      match side.readers[i]? with
      | none => .ok (side, user)
      | some reader => .ok (side.consume choose i amt reader, user)
  | .dropReader i =>
      match side.readers[i]? with
      | none => .ok (side, user)
      | some reader => do
          let side ← side.dropReader i reader
          return (side, user)
  | .run accepted => .ok ({ side with set := side.set.run accepted }, user)
  | .post who answer => .ok (side.post who answer, user)
  | .handle who =>
      match side.future? who with
      | some (.posted answer) => do
          let side ← side.handle who answer
          return (side, user)
      | _ => .ok (side, user)

/-- The kernel answers each read once, and fills a buffer it holds. -/
def permits (side : ReadSide) : ReadMove → Bool
  | .post who answer =>
      side.future? who == some .inFlight && answer.filled.all (side.set.held.contains ·)
  | _ => true

end ReadSide

/-! ## The write set -/

/-- The write set and how many buffers there have been. -/
structure Stock where
  set : WriteBufferSet Boxed
  born : Nat
deriving DecidableEq, Repr

namespace Stock

def insert (buffer : Boxed) (stock : Stock) : Stock :=
  { stock with set := stock.set.insert buffer }

/-- A new buffer is made if the set has none. -/
def get (stock : Stock) : Boxed × Stock :=
  let (buffer, set) := stock.set.get fun capacity => ⟨stock.born, capacity⟩
  (buffer, ⟨set, if stock.set.buffers.isEmpty then stock.born + 1 else stock.born⟩)

end Stock

abbrev GroupWriter := BufWriterState (Option Boxed)

def GroupWriter.buffer? (writer : GroupWriter) : Option Boxed :=
  (BufWriterState.view? writer).bind View.inner

/-- The adapter of a `GroupBufWriter`; the sink is not followed. -/
def writeAdapter : BufWriterAdapter Unit (Option Boxed) Stock :=
  .group (fun sink _ _ => sink) Stock.get Stock.insert

/-- `writes` are the buffers of the writes in flight. -/
structure WriteSide where
  stock : Stock
  writers : List GroupWriter
  writes : List Boxed
deriving DecidableEq, Repr

inductive WriteMove
  /-- The user makes a buffer. -/
  | alloc (size : Nat)
  | insert (i : Nat)
  | get
  | write (i : Nat)
  | endWrite (i : Nat)
  | dropWrite (i : Nat)
  | supplyTo
  | pollWrite (i : Nat) (data : List UInt8) (answer : Poll Nat)
  | pollFlush (i : Nat) (answer : Poll Nat)
  /-- Also `into_inner`, which keeps the sink only. -/
  | dropWriter (i : Nat)

namespace WriteSide

def call {α : Type} (side : WriteSide) (user : List Boxed) (i : Nat)
    (run : BufWriterInner Unit (Option Boxed) Stock →
      Except Panic (α × BufWriterInner Unit (Option Boxed) Stock)) :
    Except Panic (WriteSide × List Boxed) :=
  match side.writers[i]? with
  | none => .ok (side, user)
  | some writer => do
      let (_, w) ← run ⟨writer, (), side.stock⟩
      return ({ side with stock := w.shared, writers := side.writers.set i w.state }, user)

/-- `depth` bounds how deep the calls of a writer nest. -/
def exec (depth : Nat) (side : WriteSide) (user : List Boxed) :
    WriteMove → Except Panic (WriteSide × List Boxed)
  | .alloc size =>
      .ok ({ side with stock := { side.stock with born := side.stock.born + 1 } },
        user ++ [⟨side.stock.born, size⟩])
  | .insert i =>
      match user[i]? with
      | none => .ok (side, user)
      | some buffer => .ok ({ side with stock := side.stock.insert buffer }, user.eraseIdx i)
  | .get =>
      let (buffer, stock) := side.stock.get
      .ok ({ side with stock := stock }, user ++ [buffer])
  | .write i =>
      match user[i]? with
      | none => .ok (side, user)
      | some buffer => .ok ({ side with writes := side.writes ++ [buffer] }, user.eraseIdx i)
  | .endWrite i =>
      match side.writes[i]? with
      | none => .ok (side, user)
      | some buffer =>
          .ok ({ side with
            stock := side.stock.insert buffer, writes := side.writes.eraseIdx i }, user)
  | .dropWrite i => .ok ({ side with writes := side.writes.eraseIdx i }, user)
  | .supplyTo =>
      let w : BufWriterInner Unit (Option Boxed) Stock := .new none () 0 side.stock
      .ok ({ side with writers := side.writers ++ [w.state] }, user)
  | .pollWrite i data answer =>
      side.call user i (BufWriterInner.pollWrite writeAdapter data answer depth)
  | .pollFlush i answer => side.call user i fun w => w.pollFlush writeAdapter answer
  | .dropWriter i => .ok ({ side with writers := side.writers.eraseIdx i }, user)

end WriteSide

/-! ## Both sets -/

structure BufferSets where
  reading : ReadSide
  writing : WriteSide
  user : List Boxed
deriving DecidableEq, Repr

inductive SetMove
  | read (move : ReadMove)
  | write (move : WriteMove)

namespace BufferSets

def exec (depth : Nat) (s : BufferSets) : SetMove → Except Panic BufferSets
  | .read move => do
      let (reading, user) ← s.reading.exec s.user move
      return { s with reading := reading, user := user }
  | .write move => do
      let (writing, user) ← s.writing.exec depth s.user move
      return { s with writing := writing, user := user }

def permits (s : BufferSets) : SetMove → Bool
  | .read move => s.reading.permits move
  | .write _ => true

/-- The kernel does not refuse a buffer. -/
def accepts : SetMove → Bool
  | .read (.run accepted) => accepted
  | _ => true

/-- Both sets are empty; the slot of the group and the capacity are any. -/
def start (id : UInt32) (capacity : Nat) : BufferSets where
  reading := ⟨⟨⟨id, .empty, []⟩, [], [], []⟩, [], [], [], []⟩
  writing := ⟨⟨⟨[], capacity⟩, 0⟩, [], []⟩
  user := []

def machine (depth : Nat) : Machine BufferSets SetMove Panic where
  init s := ∃ id capacity, s = start id capacity
  permits s move := s.permits move = true
  exec := exec depth

end BufferSets

/-! ## The end of the read set -/

/-- What became of the set since its last reference was dropped: a task was spawned,
its entry asks for so many buffers, the kernel answered, the group was released. -/
inductive Closing
  | alive
  | spawned
  | removing (count : UInt16)
  | answered (res : RingResult)
  | released
deriving DecidableEq, Repr

structure SetLife where
  sets : BufferSets
  closing : Closing
deriving DecidableEq, Repr

inductive LifeMove
  | use (move : SetMove)
  /-- The last reference to the read set is dropped. -/
  | drop
  /-- The task builds the entry, which comes after those submitted before. -/
  | submit
  | remove (res : RingResult)
  /-- The task takes the result. -/
  | finish

namespace SetLife

def set (s : SetLife) : ReadSet := s.sets.reading.set

def withSet (s : SetLife) (set : ReadSet) (closing : Closing) : SetLife :=
  ⟨{ s.sets with reading := { s.sets.reading with set := set } }, closing⟩

def exec (depth : Nat) (s : SetLife) : LifeMove → Except Panic SetLife
  | .use move => do
      let sets ← s.sets.exec depth move
      return { s with sets := sets }
  | .drop => .ok { s with closing := .spawned }
  | .submit =>
      match RemoveBuffers.entry s.set.group with
      | .removeBuffers count _ => .ok { s with closing := .removing count }
      | _ => .ok s
  | .remove res =>
      match s.closing with
      | .removing count =>
          .ok (s.withSet { s.set with held := s.set.held.drop count.toNat } (.answered res))
      | _ => .ok s
  | .finish =>
      match s.closing with
      | .answered res => do
          let group ← RemoveBuffers.result s.set.group res
          return s.withSet { s.set with group := group } .released
      | _ => .ok s

/-- The kernel says how many buffers it gave up, if there was anything to give up. -/
def Answers (count : UInt16) (held : List (UInt16 × Boxed)) (res : RingResult) : Bool :=
  if count = 0 || held.isEmpty then res.ret ≤ 0
  else res.ret == .ofNat (min count.toNat held.length)

/-- Handles, readers, reads and ops refer to the set, so it is used while it is alive and
dropped when they are gone. The kernel runs the entries in the order of submission. -/
def permits (s : SetLife) : LifeMove → Bool
  | .use (.read (.run _)) => true
  | .use (.read move) => s.closing == .alive && s.sets.reading.permits move
  | .use (.write _) => true
  | .drop =>
      s.closing == .alive && s.sets.reading.provides.isEmpty && s.sets.reading.reads.isEmpty &&
        s.sets.reading.readers.isEmpty && s.sets.reading.abandoned.isEmpty
  | .submit => s.closing == .spawned
  | .remove res =>
      s.set.provided.isEmpty && match s.closing with
        | .removing count => Answers count s.set.held res
        | _ => false
  | .finish => match s.closing with
      | .answered _ => true
      | _ => false

def machine (depth : Nat) : Machine SetLife LifeMove Panic where
  init s := ∃ id capacity, s = ⟨.start id capacity, .alive⟩
  permits s move := s.permits move = true
  exec := exec depth

end SetLife

end Inel.Io
