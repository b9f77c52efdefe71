import Inel.Api.Chains
import Inel.Api.FsCalls

/-!
# Whole files

`write_buf` and `read_buf` submit an open linked to the transfer, wait for both and
look at the two results. The buffer goes with the transfer and comes back with it.
-/

namespace Inel.Reactor

open Transitions
open Inel.Io (BoxBuf StableBuffer StableBufferMut)

variable {W C Buf : Type}

def assertEq (left right : Nat) : Except Panic Unit :=
  if left = right then .ok () else .error (.panicked "assertion `left == right` failed")

abbrev TransferOp (Buf : Type) := Op (Transfer Buf) Opcode (Buf × Except OsError Nat) Cancellation

namespace Fs

/-- Reserves a slot, makes the two ops of a call and submits them. -/
def submitBoth (op : TransferOp Buf) (flags : Int32) (mode : Option UInt32) (path : List UInt8)
    (buf : Buf) (keys : Keys W 2) (ring : Ring Sqe W C) :
    Except Panic (Chain OpenAtDirect × Chain (Transfer Buf)) := do
  let (direct, ring) ← OwnedDirect.reserved ring
  let openAt ← FsCall.openDirectEntry path flags mode direct.slot
  let (open_, opens) := (Chain.op OpenAtDirect.op.plain).entry ⟨openAt⟩
  let (move, moves) := (Chain.op op.plain).entry ⟨.new direct.asSource buf⟩
  let _ ← ring.submitAll keys.waker [(open_, keys.slots.get 0), (move, keys.slots.get 1)]
  return (opens, moves)

/-- Awaits both ops of a call, which complete with `opened` and `moved`. -/
def join (op : TransferOp Buf) (flags : Int32) (mode : Option UInt32) (path : List UInt8)
    (buf : Buf) (keys : Keys W 2) (ring : Ring Sqe W C) (opened moved : RingResult) :
    Except Panic (Except OsError Unit × Buf × Except OsError Nat) := do
  let (opens, moves) ← submitBoth op flags mode path buf keys ring
  let opened ← (Chain.op OpenAtDirect.op.plain).result opens opened
  let moved ← (Chain.op op.plain).result moves moved
  return (opened, moved)

def writeBufAwait [StableBuffer Buf] [IntoCancellation Buf] (path : List UInt8) (contents : Buf)
    (keys : Keys W 2) (ring : Ring Sqe W C) (opened wrote : RingResult) :
    Except Panic (Buf × Except OsError Unit) := do
  match ← join Write.op writeFlags (some 438) path contents keys ring opened wrote with
  | (.error e, buf, _) => return (buf, .error e)
  | (.ok _, buf, .error e) => return (buf, .error e)
  | (.ok _, buf, .ok wrote) => do
      assertEq (StableBuffer.size buf) wrote
      return (buf, .ok ())

def readBufAwait [StableBufferMut Buf] [IntoCancellation Buf] (path : List UInt8) (buffer : Buf)
    (keys : Keys W 2) (ring : Ring Sqe W C) (opened read : RingResult) :
    Except Panic (Buf × Except OsError Nat) := do
  match ← join Read.op readFlags none path buffer keys ring opened read with
  | (.error e, buf, _) => return (buf, .error e)
  | (.ok _, buf, .error e) => return (buf, .error e)
  | (.ok _, buf, .ok read) => return (buf, .ok read)

end Fs

/-- The call returns with the caller's own buffer, and with `Ok` if and only if it succeeded. -/
def Finishes {R : Type} (call : Except Panic (Buf × Except OsError R)) (own : Buf)
    (succeeded : Prop) : Prop :=
  ∃ res, call = .ok (own, res) ∧ (res.isOk = true ↔ succeeded)

/-- There is a slot for the file, the path can be passed, and the queue has room. -/
structure Submittable (ring : Ring Sqe W C) (path : List UInt8) : Prop where
  slot : ring.directFiles.get ≠ none
  path : path.contains 0 = false
  room : ring.room 2 = true

/-- The open succeeded, and the write too, but not of the whole buffer. -/
def ShortWrite (size : Nat) (opened wrote : RingResult) : Prop :=
  opened.ret = 0 ∧ ¬ wrote.ret < 0 ∧ wrote.ret.toInt ≠ size

/-! ## Submitting the two ops -/

section Submit

theorem push_ok_iff (ring : Ring Sqe W C) (sqe : Sqe) (userData : UInt64) :
    (∃ out, ring.push sqe userData = .ok out) ↔ ring.room 1 = true := by
  unfold Ring.push Ring.room
  rw [decide_eq_true_eq]
  by_cases hroom : ring.queue.length < ring.entries
  · rw [if_pos hroom]
    exact iff_of_true ⟨_, rfl⟩ hroom
  · rw [if_neg hroom]
    exact iff_of_false (fun h => nomatch h.choose_spec) hroom

variable {ring ring' : Ring Sqe W C} {sqe : Sqe} {slot : Nat} {waker : W}
  {chain : List (Sqe × Nat)}

theorem submit_ok_iff : (∃ out, ring.submit sqe slot waker = .ok out) ↔ ring.room 1 = true := by
  have hpush := push_ok_iff { ring with completions := (ring.completions.insert slot waker).2 }
    sqe (ring.completions.insert slot waker).1.asU64
  constructor
  · intro h
    obtain ⟨out, hout⟩ := h
    obtain ⟨pushed, hpushed, _⟩ := bind_eq_ok hout
    exact hpush.mp ⟨pushed, hpushed⟩
  · intro hroom
    obtain ⟨pushed, hpushed⟩ := hpush.mpr hroom
    have hsubmit : ring.submit sqe slot waker = (do
        let ring ← Except.ok pushed
        return ((ring.completions.insert slot waker).1,
          { ring with active := ring.active + 1 }) : Except Panic _) := by
      rw [← hpushed]
      rfl
    exact ⟨_, hsubmit⟩

theorem submitAll_cons {rest : List (Sqe × Nat)} {key : Key}
    (h : ring.submit sqe slot waker = .ok (key, ring')) :
    ring.submitAll waker ((sqe, slot) :: rest) = ring'.submitAll waker rest := by
  rw [Ring.submitAll, h]
  rfl

/-- The entries of a chain are submitted if the queue has room for all of them. -/
theorem submitAll_ok_iff (hne : chain ≠ []) :
    (∃ out, ring.submitAll waker chain = .ok out) ↔ ring.room chain.length = true := by
  induction chain generalizing ring with
  | nil => exact absurd rfl hne
  | cons head rest ih =>
      cases head with
      | mk sqe slot =>
          unfold Ring.room at ih ⊢
          rw [decide_eq_true_eq, List.length_cons]
          constructor
          · intro h
            obtain ⟨out, hout⟩ := h
            obtain ⟨pushed, hsubmit, hrest⟩ := bind_eq_ok hout
            have hroom := submit_ok_iff.mp ⟨pushed, hsubmit⟩
            have hpushed := (Ring.submit_eq_ok hsubmit).2
            cases rest with
            | nil => exact of_decide_eq_true hroom
            | cons next others =>
                have hlen := of_decide_eq_true ((ih (List.cons_ne_nil _ _)).mp ⟨out, hrest⟩)
                rw [hpushed, List.length_append, List.length_singleton] at hlen
                change _ ≤ ring.entries at hlen
                omega
          · intro hlen
            have hone : ring.room 1 = true := decide_eq_true (by omega)
            obtain ⟨⟨key, pushed⟩, hsubmit⟩ := submit_ok_iff.mpr hone
            rw [submitAll_cons hsubmit]
            cases rest with
            | nil => exact ⟨pushed, rfl⟩
            | cons next others =>
                apply (ih (List.cons_ne_nil _ _)).mpr
                rw [(Ring.submit_eq_ok hsubmit).2]
                apply decide_eq_true
                change (ring.queue ++ _).length + _ ≤ ring.entries
                rw [List.length_append, List.length_singleton]
                omega

end Submit

/-! ## What the calls return -/

section Calls

variable {op : TransferOp Buf} {flags : Int32} {mode : Option UInt32} {path : List UInt8}
  {buf : Buf} {keys : Keys W 2} {ring : Ring Sqe W C} {opened moved : RingResult}

theorem reserved_of_get {slot : UInt32} {register : SlotRegister}
    (h : ring.directFiles.get = some (slot, register)) :
    OwnedDirect.reserved ring = .ok (⟨slot⟩, { ring with directFiles := register }) := by
  unfold OwnedDirect.reserved DirectFd.get Ring.getDirectSlot
  rw [h]

theorem openAt_new_ok (hnul : path.contains 0 = false) :
    OpenAt.new path flags = .ok ⟨FileSystem.dirOf path, path, flags, 0⟩ := by
  unfold OpenAt.new OpenAt.relativeTo cString FileSystem.dirOf
  rw [hnul]
  cases isAbsolute path <;> rfl

theorem ok_bind {α β : Type} (a : α) (f : α → Except Panic β) : (Except.ok a >>= f) = f a := rfl

/-- An op whose entry leaves it as it is and whose result gives the buffer back. -/
structure Moves (op : TransferOp Buf) : Prop where
  entry : ∀ transfer, (op.entry transfer).2 = transfer
  result : ∀ transfer res, op.result transfer res = .ok (transfer.buf, expectPositive res)

theorem submitBoth_ok (hop : Moves op) (h : Submittable ring path) :
    ∃ opens moves, Fs.submitBoth op flags mode path buf keys ring = .ok (opens, moves) ∧
      moves.inner.buf = buf := by
  cases hget : ring.directFiles.get with
  | none => exact absurd hget h.slot
  | some got =>
      have hopens : FsCall.openDirectEntry path flags mode got.1 =
          .ok ⟨⟨FileSystem.dirOf path, path, flags, mode.getD 0⟩, .slot got.1⟩ := by
        unfold FsCall.openDirectEntry
        rw [openAt_new_ok h.path]
        rfl
      have hsubmit : ∀ first second, ∃ out,
          ({ ring with directFiles := got.2 } : Ring Sqe W C).submitAll keys.waker
            [(first, keys.slots.get 0), (second, keys.slots.get 1)] = .ok out :=
        fun _ _ => (submitAll_ok_iff (List.cons_ne_nil _ _)).mpr h.room
      have hmoves := hop.entry (.new (DirectFd.asSource ⟨got.1⟩) buf)
      let opens : Chain OpenAtDirect :=
        ⟨⟨⟨FileSystem.dirOf path, path, flags, mode.getD 0⟩, .slot got.1⟩⟩
      let moves : Chain (Transfer Buf) := ⟨.new (DirectFd.asSource ⟨got.1⟩) buf⟩
      obtain ⟨out, hout⟩ := hsubmit ((Chain.op OpenAtDirect.op.plain).entry opens).1
        ((Chain.op op.plain).entry moves).1
      refine ⟨((Chain.op OpenAtDirect.op.plain).entry opens).2,
        ((Chain.op op.plain).entry moves).2, ?_, congrArg Transfer.buf hmoves⟩
      unfold Fs.submitBoth
      simp only [reserved_of_get hget, ok_bind, hopens]
      exact congrArg (· >>= _) hout

theorem submitBoth_eq_ok {out : Chain OpenAtDirect × Chain (Transfer Buf)}
    (h : Fs.submitBoth op flags mode path buf keys ring = .ok out) :
    ∃ direct reserved inner pushed, OwnedDirect.reserved ring = .ok (direct, reserved) ∧
      OpenAt.new path flags = .ok inner ∧
      reserved.submitAll keys.waker
        [(((Chain.op OpenAtDirect.op.plain).entry
            ⟨⟨{ inner with mode := mode.getD inner.mode }, .slot direct.slot⟩⟩).1,
          keys.slots.get 0),
        (((Chain.op op.plain).entry ⟨.new direct.asSource buf⟩).1, keys.slots.get 1)] =
        .ok pushed := by
  obtain ⟨⟨direct, reserved⟩, hreserved, h⟩ := bind_eq_ok h
  obtain ⟨openAt, hopens, h⟩ := bind_eq_ok h
  obtain ⟨inner, hnew, hopenAt⟩ := bind_eq_ok hopens
  obtain ⟨pushed, hsubmit, _⟩ := bind_eq_ok h
  rw [← Except.ok.inj hopenAt] at hsubmit
  exact ⟨direct, reserved, inner, pushed, hreserved, hnew, hsubmit⟩

theorem submittable_of_submitBoth {out : Chain OpenAtDirect × Chain (Transfer Buf)}
    (h : Fs.submitBoth op flags mode path buf keys ring = .ok out) :
    Submittable ring path := by
  obtain ⟨direct, reserved, inner, pushed, hreserved, hnew, hsubmit⟩ := submitBoth_eq_ok h
  have hroom := (submitAll_ok_iff (List.cons_ne_nil _ _)).mp ⟨pushed, hsubmit⟩
  obtain ⟨dir, hbuild⟩ : ∃ dir, OpenAt.relativeTo dir path flags = .ok inner := by
    obtain ⟨dir, _, hbuild⟩ := FsCall.chosen (f := fun dir => OpenAt.relativeTo dir path flags) hnew
    exact ⟨dir, hbuild⟩
  obtain ⟨string, hstring, _⟩ := bind_eq_ok hbuild
  unfold OwnedDirect.reserved DirectFd.get Ring.getDirectSlot at hreserved
  cases hget : ring.directFiles.get with
  | none =>
      rw [hget] at hreserved
      exact nomatch hreserved
  | some got =>
      rw [hget] at hreserved
      rw [← (Prod.mk.inj (Except.ok.inj hreserved)).2] at hroom
      exact ⟨by rw [hget]; exact Option.some_ne_none got, (FsCall.cString_eq_ok hstring).2, hroom⟩

theorem join_ok (hop : Moves op) (hle : opened.ret ≤ 0) (h : Submittable ring path) :
    Fs.join op flags mode path buf keys ring opened moved =
      .ok (FileSystem.decoded opened.ret, buf, expectPositive moved) := by
  obtain ⟨opens, moves, hsubmit, hbuf⟩ : ∃ opens moves,
      Fs.submitBoth op flags mode path buf keys ring = .ok (opens, moves) ∧
        moves.inner.buf = buf := submitBoth_ok hop h
  have hopened : (Chain.op OpenAtDirect.op.plain).result opens opened =
      .ok (FileSystem.decoded opened.ret) := FileSystem.expectZero_decoded hle
  have hmoved : (Chain.op op.plain).result moves moved = .ok (buf, expectPositive moved) := by
    rw [← hbuf]
    exact hop.result _ _
  unfold Fs.join
  simp only [hsubmit, ok_bind, hopened, hmoved]
  rfl

theorem submittable_of_join {out : Except OsError Unit × Buf × Except OsError Nat}
    (h : Fs.join op flags mode path buf keys ring opened moved = .ok out) :
    Submittable ring path := by
  obtain ⟨both, hsubmit, _⟩ := bind_eq_ok h
  exact submittable_of_submitBoth hsubmit

theorem write_moves [StableBuffer Buf] [IntoCancellation Buf] : Moves (Write.op : TransferOp Buf) :=
  ⟨fun _ => rfl, fun _ _ => rfl⟩

theorem read_moves [StableBufferMut Buf] [IntoCancellation Buf] :
    Moves (Read.op : TransferOp Buf) :=
  ⟨fun _ => rfl, fun _ _ => rfl⟩

theorem writeBufAwait_compares [StableBuffer Buf] [IntoCancellation Buf] {contents : Buf}
    {wrote : RingResult} (h : Submittable ring path) (hopened : opened.ret = 0)
    (hwrote : ¬ wrote.ret < 0) :
    Fs.writeBufAwait path contents keys ring opened wrote = (do
      assertEq (StableBuffer.size contents) wrote.ret.toInt.toNat
      return (contents, .ok ())) := by
  have hle : opened.ret ≤ 0 := by
    rw [hopened]
    decide
  unfold Fs.writeBufAwait
  rw [join_ok write_moves hle h, FileSystem.decoded, if_pos hopened, expectPositive,
    if_neg hwrote]
  rfl

/-- `write_buf` finishes well if and only if it can be submitted and the kernel does not
write a part of the buffer. -/
theorem writeBuf_finishes_iff [StableBuffer Buf] [IntoCancellation Buf] (path : List UInt8)
    (contents : Buf) (keys : Keys W 2) (ring : Ring Sqe W C) (opened wrote : RingResult)
    (hle : opened.ret ≤ 0) :
    Finishes (Fs.writeBufAwait path contents keys ring opened wrote) contents
        (opened.ret = 0 ∧ wrote.ret.toInt = StableBuffer.size contents) ↔
      Submittable ring path ∧ ¬ ShortWrite (StableBuffer.size contents) opened wrote := by
  constructor
  · intro h
    obtain ⟨res, hcall, _⟩ := h
    obtain ⟨both, hjoin, _⟩ := bind_eq_ok hcall
    have hsub := submittable_of_join hjoin
    refine ⟨hsub, ?_⟩
    intro hshort
    obtain ⟨hopened, hwrote, hsize⟩ := hshort
    have hneg : ¬ wrote.ret.toInt < 0 := fun h => hwrote (Int32.lt_iff_toInt_lt.mpr h)
    have hassert : StableBuffer.size contents ≠ wrote.ret.toInt.toNat := by omega
    rw [writeBufAwait_compares hsub hopened hwrote, assertEq, if_neg hassert] at hcall
    exact nomatch hcall
  · intro h
    by_cases hopened : opened.ret = 0
    · by_cases hwrote : wrote.ret < 0
      · have hneg : wrote.ret.toInt < 0 := Int32.lt_iff_toInt_lt.mp hwrote
        unfold Fs.writeBufAwait
        rw [join_ok write_moves hle h.1, FileSystem.decoded, if_pos hopened, expectPositive,
          if_pos hwrote]
        exact ⟨_, rfl, iff_of_false Bool.false_ne_true (by omega)⟩
      · have hsize : wrote.ret.toInt = StableBuffer.size contents := by
          apply Classical.byContradiction
          intro hsize
          exact h.2 ⟨hopened, hwrote, hsize⟩
        rw [writeBufAwait_compares h.1 hopened hwrote, assertEq, if_pos (by omega)]
        exact ⟨.ok (), rfl, iff_of_true rfl ⟨hopened, hsize⟩⟩
    · unfold Fs.writeBufAwait
      rw [join_ok write_moves hle h.1, FileSystem.decoded, if_neg hopened]
      exact ⟨_, rfl, iff_of_false Bool.false_ne_true fun h => hopened h.1⟩

/-- `read_buf` finishes well if and only if it can be submitted. -/
theorem readBuf_finishes_iff [StableBufferMut Buf] [IntoCancellation Buf] (path : List UInt8)
    (buffer : Buf) (keys : Keys W 2) (ring : Ring Sqe W C) (opened read : RingResult)
    (hle : opened.ret ≤ 0) :
    Finishes (Fs.readBufAwait path buffer keys ring opened read) buffer
        (opened.ret = 0 ∧ ¬ read.ret < 0) ↔
      Submittable ring path := by
  constructor
  · intro h
    obtain ⟨res, hcall, _⟩ := h
    obtain ⟨both, hjoin, _⟩ := bind_eq_ok hcall
    exact submittable_of_join hjoin
  · intro h
    unfold Fs.readBufAwait
    rw [join_ok read_moves hle h]
    by_cases hopened : opened.ret = 0
    · rw [FileSystem.decoded, if_pos hopened, expectPositive]
      by_cases hread : read.ret < 0
      · rw [if_pos hread]
        exact ⟨_, rfl, iff_of_false Bool.false_ne_true fun h => h.2 hread⟩
      · rw [if_neg hread]
        exact ⟨_, rfl, iff_of_true rfl ⟨hopened, hread⟩⟩
    · rw [FileSystem.decoded, if_neg hopened]
      exact ⟨_, rfl, iff_of_false Bool.false_ne_true fun h => hopened h.1⟩

/-- `write_buf` and `read_buf` finish well for every pair of completions if they can be
submitted, but for a write of a part of the buffer, where `write_buf` panics. -/
theorem whole_file_iff {B B' : Type} [StableBuffer B] [IntoCancellation B] [StableBufferMut B']
    [IntoCancellation B'] (path : List UInt8) (contents : B) (buffer : B') (keys : Keys W 2)
    (ring : Ring Sqe W C) (opened moved : RingResult) (hle : opened.ret ≤ 0) :
    (Finishes (Fs.writeBufAwait path contents keys ring opened moved) contents
        (opened.ret = 0 ∧ moved.ret.toInt = StableBuffer.size contents) ↔
      Submittable ring path ∧ ¬ ShortWrite (StableBuffer.size contents) opened moved) ∧
    (Finishes (Fs.readBufAwait path buffer keys ring opened moved) buffer
        (opened.ret = 0 ∧ ¬ moved.ret < 0) ↔
      Submittable ring path) :=
  ⟨writeBuf_finishes_iff path contents keys ring opened moved hle,
    readBuf_finishes_iff path buffer keys ring opened moved hle⟩

end Calls

/-- Three bytes are written to `/a`. -/
theorem whole_file_written :
    Finishes (Fs.writeBufAwait [47, 97] ([1, 2, 3] : BoxBuf) ⟨#v[0, 1], ()⟩
      (Ring.build {} 2048 : Ring Sqe Unit Unit) ⟨0, 0⟩ ⟨3, 0⟩) [1, 2, 3]
      ((0 : Int32) = 0 ∧ (3 : Int32).toInt = (3 : Nat)) := by
  refine (whole_file_iff [47, 97] ([1, 2, 3] : BoxBuf) ([] : BoxBuf) ⟨#v[0, 1], ()⟩
    (Ring.build {} 2048) ⟨0, 0⟩ ⟨3, 0⟩ (by decide)).1.mpr ⟨⟨?_, rfl, rfl⟩, ?_⟩
  · exact Option.some_ne_none (0, _)
  · exact fun h => h.2.2 rfl

/-- Two of three bytes are written, and then no slot is left for the file. -/
theorem write_buf_panics :
    (Fs.writeBufAwait [47, 97] ([1, 2, 3] : BoxBuf) ⟨#v[0, 1], ()⟩
        (Ring.build {} 2048 : Ring Sqe Unit Unit) ⟨0, 0⟩ ⟨2, 0⟩ =
      .error (.panicked "assertion `left == right` failed")) ∧
    (Fs.writeBufAwait [47, 97] ([1, 2, 3] : BoxBuf) ⟨#v[0, 1], ()⟩
        (Ring.build { manualDirectFiles := 0 } 2048 : Ring Sqe Unit Unit) ⟨0, 0⟩ ⟨3, 0⟩ =
      .error (.panicked "called `Result::unwrap()` on an `Err` value")) ∧
    (Fs.readBufAwait [47, 97] ([1, 2, 3] : BoxBuf) ⟨#v[0, 1], ()⟩
        (Ring.build { manualDirectFiles := 0 } 2048 : Ring Sqe Unit Unit) ⟨0, 0⟩ ⟨3, 0⟩ =
      .error (.panicked "called `Result::unwrap()` on an `Err` value")) :=
  ⟨rfl, rfl, rfl⟩

end Inel.Reactor
