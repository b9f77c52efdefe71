import Inel.Op.Chain
import Inel.Op.Descriptor
import Inel.Op.Group
import Inel.Op.Link
import Inel.Op.Transfer

/-!
# Decoding results

A completion carries one number: a negated error number, or what the request gave.
The ops whose output has an `io::Result` decode it, each in its own way.
-/

namespace Inel.Reactor

open Inel.Io (RangeBounds StableBuffer StableBufferMut)

/-- The ops with an `io::Result` in their output, and what they decode it with. -/
inductive IoOp : Type 1
  | chain (inner : IoOp)
  | registerFile (register : RegisterFile)
  | installSlot (install : InstallSlot)
  | openAt (openAt : OpenAt)
  | openAtDirect (openAt : OpenAtDirect)
  | openAtAuto (openAt : OpenAtAuto)
  | close (close : Close)
  | fSync (sync : FSync)
  | statx (statx : Statx)
  | mkDirAt (mkDirAt : MkDirAt)
  | fTruncate (truncate : FTruncate)
  | fAdvise {R : Type} {_ : RangeBounds R} (advise : FAdvise R)
  | fAllocate (allocate : FAllocate)
  | provideBuffer (provide : ProvideBuffer)
  | readGroup (read : ReadGroup) (group : ReadBufferGroup Boxed)
  | readGroupMulti (read : ReadGroupMulti) (group : ReadBufferGroup Boxed)
  | linkAt (link : LinkAt)
  | symlinkAt (link : SymlinkAt)
  | unlinkAt (unlink : UnlinkAt)
  | socket (socket : Socket)
  | socketFixed (socket : SocketFixed)
  | socketAuto (socket : SocketAuto)
  | bind (bind : Bind)
  | listen (listen : Listen)
  | connect (connect : Connect)
  | accept (order : ByteOrder) (accept : Accept)
  | acceptFixed (order : ByteOrder) (accept : AcceptFixed)
  | acceptAuto (order : ByteOrder) (accept : AcceptAuto)
  | shutdown (shutdown : Shutdown)
  | acceptMulti (accept : AcceptMulti)
  | acceptMultiAuto (accept : AcceptMultiAuto)
  | read {Buf : Type} {_ : StableBufferMut Buf} {_ : IntoCancellation Buf} (read : Transfer Buf)
  | readFixed {Buf : Type} {_ : StableBufferMut Buf} {_ : IntoCancellation Buf}
      {_ : FixedBuffer Buf} (read : Transfer Buf)
  | readVectored {Buf : Type} {_ : StableBufferMut Buf} {_ : IntoCancellation Buf}
      (read : TransferVectored Buf)
  | readVectoredExact {n : Nat} {Buf : Type} {_ : StableBufferMut Buf} {_ : IntoCancellation Buf}
      (read : TransferVectoredExact n Buf)
  | write {Buf : Type} {_ : StableBuffer Buf} {_ : IntoCancellation Buf} (write : Transfer Buf)
  | writeFixed {Buf : Type} {_ : StableBuffer Buf} {_ : IntoCancellation Buf}
      {_ : FixedBuffer Buf} (write : Transfer Buf)
  | writeVectored {Buf : Type} {_ : StableBuffer Buf} {_ : IntoCancellation Buf}
      (write : TransferVectored Buf)
  | writeVectoredExact {n : Nat} {Buf : Type} {_ : StableBuffer Buf} {_ : IntoCancellation Buf}
      (write : TransferVectoredExact n Buf)

/-- What is in an `io::Result`: an error, or the number that the request gave, if any. -/
abbrev IoResult := Except OsError (Option Int)

namespace IoResult

def nothing {α : Type} (out : Except OsError α) : IoResult := out.map fun _ => none

def descriptor (out : Except OsError Int32) : IoResult := out.map fun fd => some fd.toInt

def direct (out : Except OsError DirectAutoFd) : IoResult :=
  out.map fun direct => some (direct.slot.toNat : Int)

def count (out : Except OsError Nat) : IoResult := out.map fun count => some (count : Int)

end IoResult

/-- What a request gives when it does not fail. -/
inductive Gives
  | nothing
  | number
  /-- The slot that the kernel wrote to the op, and the count of slots it wrote. -/
  | stored (slot : Int32)
deriving DecidableEq, Repr

namespace Gives

def admits : Gives → Int32 → Bool
  | .nothing, ret => ret == 0
  | .number, ret => 0 ≤ ret
  | .stored _, ret => ret == 1

def value : Gives → Int32 → Option Int
  | .nothing, _ => none
  | .number, ret => some ret.toInt
  | .stored slot, _ => some (slot.toUInt32.toNat : Int)

/-- The error number without its sign, or what was given. -/
def expected (gives : Gives) (res : RingResult) : IoResult :=
  if res.ret < 0 then .error ⟨-res.ret⟩ else .ok (gives.value res.ret)

end Gives

namespace IoOp

/-- The `io::Result` in the output of `Op::result`. A chain has its inner op decode. -/
def result : IoOp → RingResult → Except Panic IoResult
  | .chain inner, res => inner.result res
  | .registerFile op, res => (RegisterFile.op.result op res).map .direct
  | .installSlot op, res => (InstallSlot.op.result op res).map .descriptor
  | .openAt op, res => (OpenAt.op.result op res).map .descriptor
  | .openAtDirect op, res => (OpenAtDirect.op.result op res).map .nothing
  | .openAtAuto op, res => (OpenAtAuto.op.result op res).map .direct
  | .close op, res => (Close.op.result op res).map .nothing
  | .fSync op, res => (FSync.op.result op res).map .nothing
  | .statx op, res => (Statx.op.result op res).map .nothing
  | .mkDirAt op, res => (MkDirAt.op.result op res).map .nothing
  | .fTruncate op, res => (FTruncate.op.result op res).map .nothing
  | .fAdvise op, res => (FAdvise.op.result op res).map .nothing
  | .fAllocate op, res => (FAllocate.op.result op res).map .nothing
  | .provideBuffer _, res => (ProvideBuffer.result res).map .nothing
  | .readGroup _ group, res => (ReadGroup.result group res).map fun out => .count out.1.2
  | .readGroupMulti _ group, res =>
      (ReadGroupMulti.result group res).map fun out => .count out.1.2
  | .linkAt op, res => (LinkAt.op.result op res).map .nothing
  | .symlinkAt op, res => (SymlinkAt.op.result op res).map .nothing
  | .unlinkAt op, res => (UnlinkAt.op.result op res).map .nothing
  | .socket op, res => (Socket.op.result op res).map .descriptor
  | .socketFixed op, res => (SocketFixed.op.result op res).map .nothing
  | .socketAuto op, res => (SocketAuto.op.result op res).map .direct
  | .bind op, res => (Bind.op.result op res).map .nothing
  | .listen op, res => (Listen.op.result op res).map .nothing
  | .connect op, res => (Connect.op.result op res).map .nothing
  | .accept order op, res =>
      ((Accept.op order).result op res).map fun out => .descriptor (out.map (·.1))
  | .acceptFixed order op, res => ((AcceptFixed.op order).result op res).map .nothing
  | .acceptAuto order op, res =>
      ((AcceptAuto.op order).result op res).map fun out => .direct (out.map (·.1))
  | .shutdown op, res => (Shutdown.op.result op res).map .nothing
  | .acceptMulti op, res => (AcceptMulti.op.result op res).map .descriptor
  | .acceptMultiAuto op, res => (AcceptMultiAuto.op.result op res).map .direct
  | .read op, res => (Read.op.result op res).map fun out => .count out.2
  | .readFixed op, res => (ReadFixed.op.result op res).map fun out => .count out.2
  | .readVectored op, res => (ReadVectored.op.result op res).map fun out => .count out.2
  | .readVectoredExact op, res =>
      (ReadVectoredExact.op.result op res).map fun out => .count out.2
  | .write op, res => (Write.op.result op res).map fun out => .count out.2
  | .writeFixed op, res => (WriteFixed.op.result op res).map fun out => .count out.2
  | .writeVectored op, res => (WriteVectored.op.result op res).map fun out => .count out.2
  | .writeVectoredExact op, res =>
      (WriteVectoredExact.op.result op res).map fun out => .count out.2

def next : IoOp → RingResult → Option (Except Panic IoResult)
  | .acceptMulti op, res => some ((AcceptMulti.op.next op res).map .descriptor)
  | .acceptMultiAuto op, res => some ((AcceptMultiAuto.op.next op res).map .direct)
  | .readGroupMulti _ group, res =>
      some ((ReadGroupMulti.next group res).map fun out => .count out.1.2)
  | _, _ => none

def gives : IoOp → Gives
  | .chain inner => inner.gives
  | .registerFile register => .stored register.fd
  | .installSlot _ | .openAt _ | .openAtAuto _ | .socket _ | .socketAuto _ | .accept _ _
  | .acceptAuto _ _ | .acceptMulti _ | .acceptMultiAuto _ | .readGroup _ _
  | .readGroupMulti _ _ | .read _ | .readFixed _ | .readVectored _ | .readVectoredExact _
  | .write _ | .writeFixed _ | .writeVectored _ | .writeVectoredExact _ => .number
  | _ => .nothing

/-- The group that the kernel takes a buffer of. -/
def group? : IoOp → Option (ReadBufferGroup Boxed)
  | .chain inner => inner.group?
  | .readGroup _ group | .readGroupMulti _ group => some group
  | _ => none

/-- The completions that the kernel may give the op: an error number, or what the
request gives; and no buffer but one that is in the group. -/
structure MayGive (op : IoOp) (res : RingResult) : Prop where
  errno : -4095 ≤ res.ret.toInt
  given : ¬ res.ret < 0 → op.gives.admits res.ret = true
  buffer : ∀ group, op.group? = some group → ∀ id, res.bufferId = some id →
    (group.buffers.get id.toNat).isSome = true

def Faithful (op : IoOp) (res : RingResult) : Prop :=
  op.result res = .ok (op.gives.expected res) ∧
    ∀ out, op.next res = some out → out = .ok (op.gives.expected res)

/-- The completions that are decoded well: all but descriptors and slots with the number
zero, peers that have no IP address, and the failures of `RegisterFile`. -/
def decodes : IoOp → RingResult → Bool
  | .chain inner, res => inner.decodes res
  | .registerFile _, res => 0 ≤ res.ret
  | .installSlot _, res | .openAt _, res | .openAtAuto _, res | .socket _, res
  | .socketAuto _, res | .acceptMulti _, res | .acceptMultiAuto _, res => res.ret != 0
  | .accept order op, res => res.ret < 0 || res.ret != 0 && op.addr.isInet order op.len
  | .acceptAuto order op, res =>
      res.ret < 0 || res.ret != 0 && op.inner.addr.isInet order op.inner.len
  | .acceptFixed order op, res => res.ret < 0 || op.inner.addr.isInet order op.inner.len
  | _, _ => true

/-! ## The decoders -/

section Decoders

variable {res : RingResult}

theorem neg_of_eq_zero (h : res.ret = 0) : ¬ res.ret < 0 := by
  rw [h]
  decide

theorem toUInt32_toInt {ret : Int32} (h : ¬ ret < 0) : (ret.toUInt32.toNat : Int) = ret.toInt := by
  have hneg : 0 ≤ ret.toInt := by
    rw [Int32.lt_iff_toInt_lt] at h
    exact Int.not_lt.mp h
  have hcond := BitVec.toInt_eq_toNat_cond ret.toBitVec
  have hlt := ret.toBitVec.isLt
  rw [← Int32.toNat_toBitVec]
  rw [← Int32.toInt_toBitVec] at hneg ⊢
  split at hcond
  · exact hcond.symm
  · omega

theorem expectZero_given (h : ¬ res.ret < 0 → Gives.nothing.admits res.ret = true) :
    (expectZero res).map .nothing = .ok (Gives.nothing.expected res) := by
  unfold expectZero Gives.expected
  by_cases hneg : res.ret < 0
  · have hzero : res.ret ≠ 0 := by
      intro hzero
      exact neg_of_eq_zero hzero hneg
    rw [if_neg hzero, if_pos hneg, if_pos hneg]
    rfl
  · have hzero : res.ret = 0 := beq_iff_eq.mp (h hneg)
    rw [if_pos hzero, if_neg hneg]
    rfl

theorem expectPositive_given : IoResult.count (expectPositive res) = Gives.number.expected res := by
  unfold expectPositive Gives.expected
  by_cases hneg : res.ret < 0
  · rw [if_pos hneg, if_pos hneg]
    rfl
  · have hnat : (res.ret.toInt.toNat : Int) = res.ret.toInt := by
      rw [Int32.lt_iff_toInt_lt] at hneg
      exact Int.toNat_of_nonneg (Int.not_lt.mp hneg)
    rw [if_neg hneg, if_neg hneg]
    exact congrArg (fun n => Except.ok (some n)) hnat

theorem expectNew_given {Fd : Type} {make : Int32 → Fd} {shown : Except OsError Fd → IoResult}
    (herror : ∀ e, shown (.error e) = .error e)
    (hok : ∀ ret, ¬ ret < 0 → shown (.ok (make ret)) = .ok (some ret.toInt)) :
    (expectNew make res).map shown = .ok (Gives.number.expected res) ↔
      (res.ret != 0) = true := by
  rw [bne_iff_ne]
  by_cases hzero : res.ret = 0
  · rw [expectNew_of_zero hzero]
    exact iff_of_false nofun (fun h => h hzero)
  · refine iff_of_true ?_ hzero
    unfold Gives.expected
    by_cases hneg : res.ret < 0
    · rw [expectNew_of_neg hneg, if_pos hneg]
      exact congrArg Except.ok (herror _)
    · rw [expectNew_of_pos hneg hzero, if_neg hneg]
      exact congrArg Except.ok (hok _ hneg)

theorem expectFd_given : (expectFd res).map .descriptor = .ok (Gives.number.expected res) ↔
    (res.ret != 0) = true :=
  expectNew_given (fun _ => rfl) (fun _ _ => rfl)

theorem expectDirect_given : (expectDirect res).map .direct = .ok (Gives.number.expected res) ↔
    (res.ret != 0) = true :=
  expectNew_given (fun _ => rfl)
    (fun _ h => congrArg (fun n => Except.ok (some n)) (toUInt32_toInt h))

section Peer

variable {Fd : Type} {order : ByteOrder} {accept : Accept} {fd : Fd}

theorem withPeer_ok {peer : SocketAddr} (h : fromRawAddr order accept.addr accept.len = .ok peer) :
    accept.withPeer order (.ok (.ok fd)) = .ok (.ok (fd, peer)) := by
  unfold Accept.withPeer
  rw [h]
  rfl

theorem withPeer_panic {panic : Panic}
    (h : fromRawAddr order accept.addr accept.len = .error panic) :
    accept.withPeer order (.ok (.ok fd)) = .error panic := by
  unfold Accept.withPeer
  rw [h]
  rfl

end Peer

theorem withPeer_given {Fd : Type} {make : Int32 → Fd} {shown : Except OsError Fd → IoResult}
    {order : ByteOrder} {accept : Accept} (herror : ∀ e, shown (.error e) = .error e)
    (hok : ∀ ret, ¬ ret < 0 → shown (.ok (make ret)) = .ok (some ret.toInt)) :
    (accept.withPeer order (expectNew make res)).map (fun out => shown (out.map (·.1))) =
        .ok (Gives.number.expected res) ↔
      (res.ret < 0 || res.ret != 0 && accept.addr.isInet order accept.len) = true := by
  have hgiven : (expectNew make res).map shown = .ok (Gives.number.expected res) ↔
      (res.ret != 0) = true := expectNew_given herror hok
  by_cases hneg : res.ret < 0
  · have hzero : (res.ret != 0) = true := by
      rw [bne_iff_ne]
      intro hzero
      exact neg_of_eq_zero hzero hneg
    rw [expectNew_of_neg hneg] at hgiven ⊢
    exact iff_of_true (hgiven.mpr hzero) (by simp [hneg])
  · by_cases hzero : res.ret = 0
    · rw [expectNew_of_zero hzero]
      exact iff_of_false nofun (by simp [hzero])
    · have hfile := hgiven.mpr (bne_iff_ne.mpr hzero)
      have hpeer := isOk_fromRawAddr order accept.addr accept.len
      rw [expectNew_of_pos hneg hzero] at hfile ⊢
      cases haddr : fromRawAddr order accept.addr accept.len with
      | error panic =>
          rw [haddr] at hpeer
          refine iff_of_false ?_ ?_
          · rw [withPeer_panic haddr]
            exact nofun
          · simp [hneg, ← hpeer, Except.isOk, Except.toBool]
      | ok peer =>
          rw [haddr] at hpeer
          refine iff_of_true ?_ ?_
          · rw [withPeer_ok haddr]
            exact hfile
          · simp [hzero, ← hpeer, Except.isOk, Except.toBool]

theorem acceptFixed_given {order : ByteOrder} {accept : AcceptFixed}
    (h : ¬ res.ret < 0 → Gives.nothing.admits res.ret = true) :
    ((AcceptFixed.op order).result accept res).map .nothing =
        .ok (Gives.nothing.expected res) ↔
      (res.ret < 0 || accept.inner.addr.isInet order accept.inner.len) = true := by
  have hpeer := isOk_fromRawAddr order accept.inner.addr accept.inner.len
  change Except.map IoResult.nothing (do
    let accepted ← accept.inner.withPeer order (expectZero res)
    return accepted.map Prod.snd) = _ ↔ _
  unfold Gives.expected
  by_cases hneg : res.ret < 0
  · have hzero : res.ret ≠ 0 := by
      intro hzero
      exact neg_of_eq_zero hzero hneg
    refine iff_of_true ?_ (by simp [hneg])
    have herror : expectZero res = .ok (.error ⟨-res.ret⟩) := by
      rw [expectZero, if_neg hzero, if_pos hneg]
    rw [herror, if_pos hneg]
    rfl
  · have hzero : res.ret = 0 := beq_iff_eq.mp (h hneg)
    have hok : expectZero res = .ok (.ok ()) := by rw [expectZero, if_pos hzero]
    rw [hok, if_neg hneg]
    cases haddr : fromRawAddr order accept.inner.addr accept.inner.len with
    | error panic =>
        rw [haddr] at hpeer
        refine iff_of_false ?_ ?_
        · rw [withPeer_panic haddr]
          exact nofun
        · simp [hneg, ← hpeer, Except.isOk, Except.toBool]
    | ok peer =>
        rw [haddr] at hpeer
        refine iff_of_true ?_ (by simp [← hpeer, Except.isOk, Except.toBool])
        rw [withPeer_ok haddr]
        rfl

/-- The slot is decoded, and the number of the error has the wrong sign. -/
theorem registerFile_given {register : RegisterFile} (herrno : -4095 ≤ res.ret.toInt)
    (h : ¬ res.ret < 0 → (Gives.stored register.fd).admits res.ret = true) :
    (RegisterFile.op.result register res).map .direct =
        .ok ((Gives.stored register.fd).expected res) ↔
      (decide (0 ≤ res.ret)) = true := by
  rw [decide_eq_true_eq, Int32.le_iff_toInt_le]
  by_cases hneg : res.ret < 0
  · have hne : res.ret ≠ 1 := by
      intro hone
      rw [hone] at hneg
      exact absurd hneg (by decide)
    have hlt : res.ret.toInt < 0 := Int32.lt_iff_toInt_lt.mp hneg
    refine iff_of_false ?_ (Int.not_le.mpr hlt)
    simp only [RegisterFile.op, if_neg hne, if_pos hneg, Gives.expected]
    intro heq
    have hsign : res.ret = -res.ret := OsError.mk.inj (Except.error.inj (Except.ok.inj heq))
    have hint := congrArg Int32.toInt hsign
    rw [Int32.toInt_neg, Int.bmod_eq_of_le (by omega) (by omega)] at hint
    omega
  · have hone : res.ret = 1 := beq_iff_eq.mp (h hneg)
    have hle := Int.not_lt.mp (mt Int32.lt_iff_toInt_lt.mpr hneg)
    refine iff_of_true ?_ hle
    simp only [RegisterFile.op, if_pos hone, if_neg hneg, Gives.expected]
    rfl

theorem readGroup_given {group : ReadBufferGroup Boxed}
    (h : ∀ id, res.bufferId = some id → (group.buffers.get id.toNat).isSome = true) :
    (ReadGroup.result group res).map (fun out => IoResult.count out.1.2) =
      .ok (Gives.number.expected res) := by
  unfold ReadGroup.result
  cases hid : res.bufferId with
  | none => exact congrArg Except.ok expectPositive_given
  | some id =>
      obtain ⟨buffer, hbuffer⟩ := Option.isSome_iff_exists.mp (h id hid)
      have htake := ReadBufferGroup.take_eq_ok.mpr ⟨hbuffer, rfl⟩
      simp only [htake]
      exact congrArg Except.ok expectPositive_given

end Decoders

/-! ## What ops decode -/

variable {op inner : IoOp} {res : RingResult}

theorem mayGive_inner (h : (chain inner).MayGive res) : inner.MayGive res :=
  ⟨h.errno, h.given, h.buffer⟩

/-- A multishot op decodes all its completions alike. -/
theorem next_eq_result {out : Except Panic IoResult} (h : op.next res = some out) :
    out = op.result res := by
  cases op with
  | acceptMulti | acceptMultiAuto | readGroupMulti => exact (Option.some.inj h).symm
  | _ => exact nomatch h

theorem faithful_iff_result :
    op.Faithful res ↔ op.result res = .ok (op.gives.expected res) := by
  constructor
  · exact And.left
  · intro hresult
    refine ⟨hresult, ?_⟩
    intro out hout
    rw [next_eq_result hout, hresult]

/-- An op reports what a completion says, in each way it is decoded, unless the number
zero stands for a descriptor or a slot, the peer has no IP address, or a file was not
registered. -/
theorem faithful_iff (op : IoOp) (res : RingResult) (h : op.MayGive res) :
    op.Faithful res ↔ op.decodes res = true := by
  rw [faithful_iff_result]
  induction op with
  | chain inner ih =>
      exact ih (mayGive_inner h)
  | registerFile register =>
      exact registerFile_given h.errno h.given
  | installSlot | openAt | socket =>
      exact expectFd_given
  | openAtAuto | socketAuto =>
      exact expectDirect_given
  | acceptMulti accept =>
      exact expectFd_given
  | acceptMultiAuto accept =>
      exact expectDirect_given
  | accept order accept =>
      exact withPeer_given (fun _ => rfl) (fun _ _ => rfl)
  | acceptAuto order accept =>
      exact withPeer_given (fun _ => rfl)
        (fun _ hret => congrArg (fun n => Except.ok (some n)) (toUInt32_toInt hret))
  | acceptFixed order accept =>
      exact acceptFixed_given h.given
  | readGroup read group =>
      exact iff_of_true (readGroup_given (h.buffer group rfl)) rfl
  | readGroupMulti read group =>
      exact iff_of_true (readGroup_given (h.buffer group rfl)) rfl
  | read | readFixed | readVectored | readVectoredExact | write | writeFixed | writeVectored
  | writeVectoredExact =>
      exact iff_of_true (congrArg Except.ok expectPositive_given) rfl
  | statx statx =>
      refine iff_of_true ?_ rfl
      refine Eq.trans ?_ (expectZero_given h.given)
      change ((do
        let filled ← expectZero res
        return filled.map fun _ => statx.stats) : Except Panic _).map IoResult.nothing = _
      cases expectZero res with
      | error panic => rfl
      | ok filled => cases filled <;> rfl
  | _ =>
      exact iff_of_true (expectZero_given h.given) rfl

/-- A connection on descriptor 4. -/
theorem accepted_faithful : (acceptMulti ⟨.fd 3⟩).MayGive ⟨4, cqeMore⟩ ∧
    (acceptMulti ⟨.fd 3⟩).Faithful ⟨4, cqeMore⟩ := by
  have h : (acceptMulti ⟨.fd 3⟩).MayGive ⟨4, cqeMore⟩ :=
    ⟨by decide, by decide, fun _ hgroup => nomatch hgroup⟩
  exact ⟨h, (faithful_iff _ _ h).mpr (by decide)⟩

/-- `RegisterFile` fails with `EBADF` and reports the error -9, and a socket with the
descriptor 0 panics. -/
theorem register_file_wrong_sign :
    ((registerFile ⟨7⟩).MayGive ⟨-9, 0⟩ ∧
      (registerFile ⟨7⟩).result ⟨-9, 0⟩ = .ok (.error ⟨-9⟩) ∧
      ¬ (registerFile ⟨7⟩).Faithful ⟨-9, 0⟩) ∧
    ((socket ⟨2, 1, 0⟩).MayGive ⟨0, 0⟩ ∧
      (socket ⟨2, 1, 0⟩).result ⟨0, 0⟩ = .error (.unreachable "") ∧
      ¬ (socket ⟨2, 1, 0⟩).Faithful ⟨0, 0⟩) := by
  refine ⟨⟨⟨by decide, by decide, fun _ hgroup => nomatch hgroup⟩, rfl, ?_⟩,
    ⟨⟨by decide, by decide, fun _ hgroup => nomatch hgroup⟩, rfl, ?_⟩⟩
  · rw [faithful_iff_result]
    decide
  · rw [faithful_iff_result]
    decide

end IoOp

end Inel.Reactor
