import Inel.Api.Closing
import Inel.Base.Transition
import Inel.Op.File
import Inel.Op.Net
import Inel.Op.Transfer

/-!
# Chains in the submission queue

Tasks push their entries one poll at a time, so the entries of a chain are next
to each other. Whether they are also a group of their own depends on their
links, and on what another task pushes behind them before the next wait.
-/

namespace Inel.Reactor

open LinkedBatch Transitions

variable {W C : Type}

/-- The indices that the slab picks for the keys of a chain, and its waker. -/
structure Keys (W : Type) (n : Nat) where
  slots : Vector Nat n
  waker : W

/-- `OwnedDirect::reserve`, unwrapped. -/
def OwnedDirect.reserved (ring : Ring Sqe W C) :
    Except Panic (DirectFd × Ring Sqe W C) :=
  match DirectFd.get ring with
  | (.ok direct, ring) => .ok (direct, ring)
  | (.error _, _) => .error (.panicked "called `Result::unwrap()` on an `Err` value")

/-- Polls the submissions of a joined future, none of which was polled before. -/
def Ring.submitAll (ring : Ring Sqe W C) (waker : W) :
    List (Sqe × Nat) → Except Panic (Ring Sqe W C)
  | [] => .ok ring
  | (sqe, slot) :: rest => do
      let (_, ring) ← ring.submit sqe slot waker
      ring.submitAll waker rest

/-- `O_WRONLY | O_CREAT | O_TRUNC`. -/
def writeFlags : Int32 := 577

/-- `O_RDWR`. -/
def readFlags : Int32 := 2

namespace Fs

/-- The first poll of `write_buf`, with contents of `len` bytes. -/
def writeBuf (path : List UInt8) (len : UInt32) (keys : Keys W 2) (ring : Ring Sqe W C) :
    Except Panic (Ring Sqe W C) := do
  let (direct, ring) ← OwnedDirect.reserved ring
  let inner ← OpenAt.new path writeFlags
  let openAt : OpenAtDirect := ⟨{ inner with mode := 438 }, .slot direct.slot⟩
  let open_ := (Sqe.single (OpenAtDirect.op.entry openAt).1).chain
  let write := (Sqe.single (.write direct.asSource len noOffset)).chain
  ring.submitAll keys.waker [(open_, keys.slots[0]), (write, keys.slots[1])]

/-- The first poll of `read_buf`, with a buffer of `len` bytes. -/
def readBuf (path : List UInt8) (len : UInt32) (keys : Keys W 2) (ring : Ring Sqe W C) :
    Except Panic (Ring Sqe W C) := do
  let (direct, ring) ← OwnedDirect.reserved ring
  let inner ← OpenAt.new path readFlags
  let openAt : OpenAtDirect := ⟨inner, .slot direct.slot⟩
  let open_ := (Sqe.single (OpenAtDirect.op.entry openAt).1).chain
  let read := (Sqe.single (.read direct.asSource len noOffset)).chain
  ring.submitAll keys.waker [(open_, keys.slots[0]), (read, keys.slots[1])]

end Fs

namespace TcpListener

def defaultListenBacklog : UInt32 := 256

/-- The first poll of `bind_direct` for one of the addresses. -/
def bindDirect (order : ByteOrder) (addr : SocketAddr) (keys : Keys W 3) (ring : Ring Sqe W C) :
    Except Panic (Ring Sqe W C) := do
  let (direct, ring) ← OwnedDirect.reserved ring
  let fixed : SocketFixed := ⟨.streamFromAddr addr, .slot direct.slot⟩
  let socket := Sqe.single (SocketFixed.op.entry fixed).1
  let bind := (Sqe.single (Bind.op.entry (.new order direct.asSource addr)).1).chain
  let listen := Sqe.single (Listen.op.entry ⟨direct.asSource, defaultListenBacklog⟩).1
  ring.submitAll keys.waker
    [(socket, keys.slots[0]), (bind, keys.slots[1]), (listen, keys.slots[2])]

end TcpListener

/-! ## Batches -/

/-- What a chain was pushed for. -/
inductive ChainKind
  | writeBuf
  | readBuf
  | bindDirect
  | dropStream
  | alone
deriving DecidableEq, Repr

def ChainKind.links : ChainKind → List Bool
  | .writeBuf => [true, true]
  | .readBuf => [true, true]
  | .bindDirect => [false, true, false]
  | .dropStream => [true, false]
  | .alone => [false]

/-- A chain as it is meant to be. -/
structure Pushed where
  kind : ChainKind
  entries : List (Entry Sqe)
deriving DecidableEq, Repr

/-- The ring between two waits, with the chains pushed since the last one. -/
structure Batch (W C : Type) where
  ring : Ring Sqe W C
  chains : List Pushed

inductive BatchMove (W C : Type)
  | writeBuf (path : List UInt8) (len : UInt32) (keys : Keys W 2)
  | readBuf (path : List UInt8) (len : UInt32) (keys : Keys W 2)
  | bindDirect (order : ByteOrder) (addr : SocketAddr) (keys : Keys W 3)
  | dropStream (direct : DirectAutoFd)
  /-- Any other op is polled first. -/
  | submit (request : Opcode) (slot : Nat) (waker : W)
  | submitDetached (request : Opcode)
  | cancel (key : Key) (request : Option Opcode) (cancel : C)
  | checkResult (key : Key)
  | release (direct : DirectFd)
  | wait (cqes : List Cqe)

namespace Batch

def kindOf : BatchMove W C → ChainKind
  | .writeBuf .. => .writeBuf
  | .readBuf .. => .readBuf
  | .bindDirect .. => .bindDirect
  | .dropStream _ => .dropStream
  | _ => .alone

def run (ring : Ring Sqe W C) : BatchMove W C → Except Panic (Ring Sqe W C)
  | .writeBuf path len keys => Fs.writeBuf path len keys ring
  | .readBuf path len keys => Fs.readBuf path len keys ring
  | .bindDirect order addr keys => TcpListener.bindDirect order addr keys ring
  | .dropStream direct => DirectTcpStream.drop (.auto direct) ring
  | .submit request slot waker => do
      let (_, ring) ← ring.submit (.single request) slot waker
      return ring
  | .submitDetached request => ring.submitDetached (.single request)
  | .cancel key request cancel => do
      let ran ← ring.cancel key (request.map .single) cancel
      return ran.state
  | .checkResult key => do
      let ran ← ring.checkResult key
      return ran.state
  | .release direct => .ok (direct.release ring)
  | .wait cqes => do
      let (_, ran) ← ring.wait cqes
      return ran.state

/-- A wait that does not enter the kernel leaves the batch open. -/
def exec (s : Batch W C) (move : BatchMove W C) : Except Panic (Batch W C) := do
  let ring ← run s.ring move
  match move with
  | .wait _ => return ⟨ring, if s.ring.idle then s.chains else []⟩
  | _ =>
      let entries := ring.queue.drop s.ring.queue.length
      return ⟨ring, if entries.isEmpty then s.chains else s.chains ++ [⟨kindOf move, entries⟩]⟩

def machine (W C : Type) : Machine (Batch W C) (BatchMove W C) Panic where
  init s := ∃ options entries, s = ⟨Ring.build options entries, []⟩
  permits _ _ := True
  exec := exec

def Grouped (s : Batch W C) : Prop :=
  groups Entry.linked s.ring.queue = s.chains.map (·.entries)

instance (s : Batch W C) : Decidable s.Grouped :=
  inferInstanceAs (Decidable (groups Entry.linked s.ring.queue = s.chains.map (·.entries)))

/-- No `bind_direct`, and nothing behind a `write_buf` or a `read_buf`. -/
def tidy : List ChainKind → Bool
  | [] => true
  | [kind] => kind != .bindDirect
  | kind :: rest =>
      kind != .bindDirect && kind != .writeBuf && kind != .readBuf && tidy rest

/-- The queue is made of the chains, linked the way their kinds are. -/
structure Inv (s : Batch W C) : Prop where
  queue : s.ring.queue = (s.chains.map (·.entries)).flatten
  links : ∀ chain ∈ s.chains, chain.entries.map Entry.linked = chain.kind.links

/-! ## What a move pushes -/

variable {ring ring' : Ring Sqe W C}

def Pushes (ring ring' : Ring Sqe W C) (links : List Bool) : Prop :=
  ∃ entries, ring'.queue = ring.queue ++ entries ∧
    (entries = [] ∨ entries.map Entry.linked = links)

theorem submitAll_queue {waker : W} {chain : List (Sqe × Nat)}
    (h : ring.submitAll waker chain = .ok ring') :
    ∃ entries, ring'.queue = ring.queue ++ entries ∧
      entries.map Entry.linked = chain.map (·.1.link) := by
  induction chain generalizing ring with
  | nil =>
      refine ⟨[], ?_, rfl⟩
      rw [← Except.ok.inj h, List.append_nil]
  | cons head rest ih =>
      cases head with
      | mk sqe slot =>
          obtain ⟨pushed, hsubmit, hrest⟩ := bind_eq_ok h
          obtain ⟨entries, hqueue, hlinks⟩ := ih hrest
          refine ⟨⟨sqe, pushed.1.asU64⟩ :: entries, ?_, ?_⟩
          · rw [hqueue, (Ring.submit_eq_ok hsubmit).2]
            simp
          · simp [hlinks, Entry.linked]

theorem reserved_queue {direct : DirectFd} (h : OwnedDirect.reserved ring = .ok (direct, ring')) :
    ring'.queue = ring.queue := by
  unfold OwnedDirect.reserved DirectFd.get Ring.getDirectSlot at h
  cases hget : ring.directFiles.get with
  | none => simp [hget] at h
  | some got =>
      simp only [hget] at h
      rw [← (Prod.mk.inj (Except.ok.inj h)).2]

theorem writeBuf_pushes {path : List UInt8} {len : UInt32} {keys : Keys W 2}
    (h : Fs.writeBuf path len keys ring = .ok ring') : Pushes ring ring' [true, true] := by
  obtain ⟨reserved, hreserved, h⟩ := bind_eq_ok h
  obtain ⟨inner, -, h⟩ := bind_eq_ok h
  obtain ⟨entries, hqueue, hlinks⟩ := submitAll_queue h
  rw [reserved_queue hreserved] at hqueue
  exact ⟨entries, hqueue, Or.inr hlinks⟩

theorem readBuf_pushes {path : List UInt8} {len : UInt32} {keys : Keys W 2}
    (h : Fs.readBuf path len keys ring = .ok ring') : Pushes ring ring' [true, true] := by
  obtain ⟨reserved, hreserved, h⟩ := bind_eq_ok h
  obtain ⟨inner, -, h⟩ := bind_eq_ok h
  obtain ⟨entries, hqueue, hlinks⟩ := submitAll_queue h
  rw [reserved_queue hreserved] at hqueue
  exact ⟨entries, hqueue, Or.inr hlinks⟩

theorem bindDirect_pushes {order : ByteOrder} {addr : SocketAddr} {keys : Keys W 3}
    (h : TcpListener.bindDirect order addr keys ring = .ok ring') :
    Pushes ring ring' [false, true, false] := by
  obtain ⟨reserved, hreserved, h⟩ := bind_eq_ok h
  obtain ⟨entries, hqueue, hlinks⟩ := submitAll_queue h
  rw [reserved_queue hreserved] at hqueue
  exact ⟨entries, hqueue, Or.inr hlinks⟩

theorem submitDetached_queue {sqe : Sqe} (h : ring.submitDetached sqe = .ok ring') :
    ring'.queue = ring.queue ++ [⟨sqe, ignoreKey⟩] := by
  rw [Ring.submitDetached_eq_ok h]

theorem dropStream_pushes {direct : DirectAutoFd}
    (h : DirectTcpStream.drop (.auto direct) ring = .ok ring') :
    Pushes ring ring' [true, false] := by
  obtain ⟨shut, hshut, hclose⟩ := bind_eq_ok h
  refine ⟨[⟨(Shutdown.entry direct.asSource .both).chain, ignoreKey⟩,
    ⟨Close.entry direct.asSource, ignoreKey⟩], ?_, Or.inr rfl⟩
  rw [submitDetached_queue hclose, submitDetached_queue hshut, List.append_assoc]
  rfl

theorem cancel_pushes {key : Key} {request : Option Opcode} {cancel : C}
    {ran : Ran Unit (Ring Sqe W C) W C}
    (h : ring.cancel key (request.map .single) cancel = .ok ran) :
    Pushes ring ran.state [false] := by
  obtain ⟨accepted, completions, -, hstate⟩ := Ring.cancel_eq_ok h
  rw [hstate]
  cases accepted with
  | false => exact ⟨[], by simp [Ring.cancelled], Or.inl rfl⟩
  | true =>
      cases request with
      | none => exact ⟨[], by simp [Ring.cancelled], Or.inl rfl⟩
      | some request => exact ⟨[⟨.single request, ignoreKey⟩], rfl, Or.inr rfl⟩

theorem Pushes.nothing {links : List Bool} (h : ring'.queue = ring.queue) :
    Pushes ring ring' links := ⟨[], by rw [h, List.append_nil], Or.inl rfl⟩

theorem run_pushes {move : BatchMove W C} (hwait : ∀ cqes, move ≠ .wait cqes)
    (h : run ring move = .ok ring') : Pushes ring ring' (kindOf move).links := by
  cases move with
  | writeBuf path len keys => exact writeBuf_pushes h
  | readBuf path len keys => exact readBuf_pushes h
  | bindDirect order addr keys => exact bindDirect_pushes h
  | dropStream direct => exact dropStream_pushes h
  | submit request slot waker =>
      obtain ⟨pushed, hsubmit, hret⟩ := bind_eq_ok h
      refine ⟨[⟨.single request, pushed.1.asU64⟩], ?_, Or.inr rfl⟩
      rw [← Except.ok.inj hret, (Ring.submit_eq_ok hsubmit).2]
  | submitDetached request => exact ⟨_, submitDetached_queue h, Or.inr rfl⟩
  | cancel key request cancel =>
      obtain ⟨ran, hcancel, hret⟩ := bind_eq_ok h
      rw [← Except.ok.inj hret]
      exact cancel_pushes hcancel
  | checkResult key =>
      obtain ⟨ran, hcheck, hret⟩ := bind_eq_ok h
      obtain ⟨completions, -, hstate⟩ := Ring.checkResult_eq_ok hcheck
      rw [← Except.ok.inj hret]
      apply Pushes.nothing
      rw [hstate]
  | release direct =>
      rw [← Except.ok.inj h]
      exact Pushes.nothing rfl
  | wait cqes => exact absurd rfl (hwait cqes)

theorem handleCompletions_queue {cqes : List Cqe} {ran : Ran Unit (Ring Sqe W C) W C}
    (h : ring.handleCompletions cqes = .ok ran) : ran.state.queue = ring.queue := by
  induction cqes generalizing ring ran with
  | nil => rw [← Except.ok.inj h]
  | cons cqe cqes ih =>
      obtain ⟨first, hfirst, hrest⟩ := bind_eq_ok h
      obtain ⟨others, hothers, hret⟩ := bind_eq_ok hrest
      rw [← Except.ok.inj hret, ih hothers]
      unfold Ring.handleCompletion at hfirst
      split at hfirst
      · rw [← Except.ok.inj hfirst]
      · obtain ⟨notified, -, hdone⟩ := bind_eq_ok hfirst
        rw [← Except.ok.inj hdone]

theorem wait_queue {cqes : List Cqe} (h : run ring (.wait cqes) = .ok ring') :
    ring'.queue = if ring.idle then ring.queue else [] := by
  obtain ⟨waited, hwait, hret⟩ := bind_eq_ok h
  obtain ⟨ran, hran, hpair⟩ := bind_eq_ok hwait
  have hqueue : ran.state.queue = ring.submitAndWait.2.queue := handleCompletions_queue hran
  rw [← Except.ok.inj hret, ← Except.ok.inj hpair]
  show ran.state.queue = _
  rw [hqueue]
  unfold Ring.submitAndWait
  split <;> rfl

namespace Inv

variable {s s' : Batch W C}

theorem pushed {kind : ChainKind} (h : s.Inv) (hpushes : Pushes s.ring ring' kind.links) :
    Inv ⟨ring', if (ring'.queue.drop s.ring.queue.length).isEmpty then s.chains
      else s.chains ++ [⟨kind, ring'.queue.drop s.ring.queue.length⟩]⟩ := by
  obtain ⟨entries, hqueue, hlinks⟩ := hpushes
  have hdrop : ring'.queue.drop s.ring.queue.length = entries := by rw [hqueue, List.drop_left]
  rw [hdrop]
  cases entries with
  | nil =>
      rw [List.append_nil] at hqueue
      constructor
      · show ring'.queue = _
        rw [hqueue]
        exact h.queue
      · exact h.links
  | cons entry entries =>
      constructor
      · show ring'.queue = _
        rw [hqueue, h.queue]
        simp
      · intro chain hchain
        rw [List.isEmpty_cons, if_neg Bool.false_ne_true, List.mem_append, List.mem_singleton]
          at hchain
        cases hchain with
        | inl hold => exact h.links chain hold
        | inr hnew =>
            rw [hnew]
            cases hlinks with
            | inl hnil => simp at hnil
            | inr heq => exact heq

theorem step {move : BatchMove W C} (h : s.Inv) (hexec : s.exec move = .ok s') : s'.Inv := by
  obtain ⟨ring', hrun, hret⟩ := bind_eq_ok hexec
  by_cases hwait : ∀ cqes, move ≠ .wait cqes
  · have hpushed := h.pushed (run_pushes hwait hrun)
    cases move with
    | wait cqes => exact absurd rfl (hwait cqes)
    | _ =>
        rw [← Except.ok.inj hret]
        exact hpushed
  · cases move with
    | wait cqes =>
        rw [← Except.ok.inj hret]
        constructor
        · show ring'.queue = _
          rw [wait_queue hrun]
          split
          · exact h.queue
          · rfl
        · intro chain hchain
          split at hchain
          · exact h.links chain hchain
          · simp at hchain
    | _ => exact absurd (fun cqes heq => by cases heq) hwait

theorem of_reach (h : Reach (machine W C) Any s) : s.Inv := by
  apply Reach.invariant (I := fun s : Batch W C => s.Inv) _ _ h
  · intro s hinit
    obtain ⟨options, entries, rfl⟩ := hinit
    exact ⟨rfl, by simp⟩
  · intro s move s' hs _ _ hexec
    exact hs.step hexec

/-- Whether the chains are apart shows in their kinds. -/
theorem apart_eq_tidy (chains : List Pushed)
    (h : ∀ chain ∈ chains, chain.entries.map Entry.linked = chain.kind.links) :
    apart Entry.linked (chains.map (·.entries)) = tidy (chains.map (·.kind)) := by
  have hjoined : ∀ chain ∈ chains,
      joined Entry.linked chain.entries = (chain.kind != .bindDirect) := by
    intro chain hchain
    rw [← joined_map, h chain hchain]
    cases chain.kind <;> rfl
  have hclosed : ∀ chain ∈ chains, closed Entry.linked chain.entries =
      (chain.kind != .writeBuf && chain.kind != .readBuf) := by
    intro chain hchain
    rw [← closed_map, h chain hchain]
    cases chain.kind <;> rfl
  induction chains with
  | nil => rfl
  | cons chain rest ih =>
      have hrest := ih (fun c hc => h c (List.mem_cons_of_mem _ hc))
        (fun c hc => hjoined c (List.mem_cons_of_mem _ hc))
        (fun c hc => hclosed c (List.mem_cons_of_mem _ hc))
      cases rest with
      | nil => exact hjoined chain List.mem_cons_self
      | cons next rest =>
          show (joined Entry.linked chain.entries && closed Entry.linked chain.entries &&
            apart Entry.linked ((next :: rest).map (·.entries))) = _
          rw [hrest, hjoined chain List.mem_cons_self, hclosed chain List.mem_cons_self]
          simp [tidy, Bool.and_assoc]

theorem grouped_iff (h : s.Inv) : s.Grouped ↔ tidy (s.chains.map (·.kind)) = true := by
  unfold Grouped
  rw [h.queue, groups_flatten_iff, apart_eq_tidy s.chains h.links]

end Inv

/-- In every run the link groups are the chains as they are meant to be if and
only if the batch has no `bind_direct` and nothing behind a `write_buf` or a
`read_buf`. -/
theorem groups_are_chains_iff {s : Batch W C} (h : Reach (machine W C) Any s) :
    s.Grouped ↔ tidy (s.chains.map (·.kind)) = true :=
  (Inv.of_reach h).grouped_iff

/-- The batch after these moves on a new ring is not grouped as it should be. -/
def strays (moves : List (BatchMove Unit Unit)) (kinds : List ChainKind) : Bool :=
  (replay (machine Unit Unit) (fun _ _ => true) ⟨Ring.build {} 2048, []⟩ moves).any fun s =>
    decide (s.chains.map (·.kind) = kinds ∧ ¬ s.Grouped)

theorem exists_of_strays (moves : List (BatchMove Unit Unit)) (kinds : List ChainKind)
    (h : strays moves kinds = true) : ∃ s, Reach (machine Unit Unit) Any s ∧
      s.chains.map (·.kind) = kinds ∧ ¬ s.Grouped := by
  have hstart : Reach (machine Unit Unit) Any ⟨Ring.build {} 2048, []⟩ := .start ⟨{}, 2048, rfl⟩
  obtain ⟨s, hreach, htest⟩ := Reach.of_replay (fun _ _ => true)
    (fun _ _ _ => ⟨trivial, trivial⟩) hstart moves _ h
  exact ⟨s, hreach, of_decide_eq_true htest⟩

/-- The socket of a `bind_direct` is on its own, and what another task pushes
behind a `write_buf` is linked to its write. -/
theorem groups_are_not_chains :
    (∃ s : Batch Unit Unit, Reach (machine Unit Unit) Any s ∧
      s.chains.map (·.kind) = [.bindDirect] ∧ ¬ s.Grouped) ∧
    ∃ s : Batch Unit Unit, Reach (machine Unit Unit) Any s ∧
      s.chains.map (·.kind) = [.writeBuf, .alone] ∧ ¬ s.Grouped := by
  constructor
  · exact exists_of_strays [.bindDirect .little (.v4 #v[127, 0, 0, 1] 8080) ⟨#v[0, 1, 2], ()⟩] _
      (by decide)
  · exact exists_of_strays
      [.writeBuf [47, 97] 3 ⟨#v[0, 1], ()⟩, .submitDetached (.close (.fd 7))] _ (by decide)

/-- A stream is dropped and then a file is written. -/
theorem groups_are_chains_iff_written :
    ∃ s : Batch Unit Unit, Reach (machine Unit Unit) Any s ∧
      s.chains.map (·.kind) = [.dropStream, .writeBuf] ∧ s.Grouped := by
  have hstart : Reach (machine Unit Unit) Any ⟨Ring.build {} 2048, []⟩ := .start ⟨{}, 2048, rfl⟩
  obtain ⟨s, hreach, htest⟩ := Reach.of_replay (fun _ _ => true)
    (fun _ _ _ => ⟨trivial, trivial⟩) hstart
    [.dropStream ⟨16⟩, .writeBuf [47, 97] 3 ⟨#v[0, 1], ()⟩]
    (fun s => decide (s.chains.map (·.kind) = [.dropStream, .writeBuf])) (by decide)
  have hkinds := of_decide_eq_true htest
  refine ⟨s, hreach, hkinds, (groups_are_chains_iff hreach).mpr ?_⟩
  rw [hkinds]
  rfl

end Batch

end Inel.Reactor
