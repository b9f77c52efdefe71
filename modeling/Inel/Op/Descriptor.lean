import Inel.Op.Direct
import Inel.Op.File
import Inel.Op.Net

/-!
# Ops that open files

The successful completion of these ops carries a new descriptor, or a new slot of
the registered file table. What a completion reports is the kernel's side of it,
what an output carries is the caller's.
-/

namespace Inel.Reactor

/-- The file in what an op returns. -/
def carried {Fd : Type} (asSource : Fd → Target) : Except OsError Fd → Option Target
  | .ok fd => some (asSource fd)
  | .error _ => none

/-- The file a completion reports by its number. -/
def reported (file : Int32 → Target) (res : RingResult) : Option Target :=
  if res.ret < 0 then none else some (file res.ret)

section Expect

variable {Fd : Type} {make : Int32 → Fd} {res : RingResult}

theorem expectNew_of_neg (h : res.ret < 0) :
    expectNew make res = .ok (.error ⟨-res.ret⟩) := by
  have hpos : ¬ 0 < res.ret := by
    rw [Int32.lt_iff_toInt_lt] at h ⊢
    omega
  rw [expectNew, if_neg hpos, if_pos h]

theorem expectNew_of_zero (h : res.ret = 0) : expectNew make res = .error (.unreachable "") := by
  simp [expectNew, h]

theorem expectNew_of_pos (hneg : ¬ res.ret < 0) (hzero : res.ret ≠ 0) :
    expectNew make res = .ok (.ok (make res.ret)) := by
  have hpos : 0 < res.ret := by
    rw [Int32.lt_iff_toInt_lt] at hneg ⊢
    have hne : res.ret.toInt ≠ (0 : Int32).toInt := fun h => hzero (Int32.toInt_inj.mp h)
    omega
  rw [expectNew, if_pos hpos]

theorem expectNew_carried (asSource : Fd → Target) {out : Except OsError Fd}
    (h : expectNew make res = .ok out) :
    carried asSource out = reported (fun ret => asSource (make ret)) res := by
  by_cases hneg : res.ret < 0
  · rw [expectNew_of_neg hneg] at h
    rw [← Except.ok.inj h, reported, if_pos hneg, carried]
  · by_cases hzero : res.ret = 0
    · simp [expectNew_of_zero hzero] at h
    · rw [expectNew_of_pos hneg hzero] at h
      rw [← Except.ok.inj h, reported, if_neg hneg, carried]

/-- Decoding a file panics on the number zero and on no other. -/
theorem isOk_expectNew : (expectNew make res).isOk = decide (res.ret ≠ 0) := by
  by_cases hneg : res.ret < 0
  · have hne : res.ret ≠ 0 := by
      intro hzero
      rw [hzero] at hneg
      exact absurd hneg (by decide)
    simp [expectNew_of_neg hneg, hne, Except.isOk, Except.toBool]
  · by_cases hzero : res.ret = 0
    · simp [expectNew_of_zero hzero, hzero, Except.isOk, Except.toBool]
    · simp [expectNew_of_pos hneg hzero, hzero, Except.isOk, Except.toBool]

end Expect

section Peer

variable {Fd : Type} {order : ByteOrder} {accept : Accept}
  {accepted : Except Panic (Except OsError Fd)}

theorem withPeer_eq_ok {out : Except OsError (Fd × SocketAddr)}
    (h : accept.withPeer order accepted = .ok out) :
    ∃ fd, accepted = .ok fd ∧ ∀ asSource : Fd → Target,
      carried (fun pair => asSource pair.1) out = carried asSource fd := by
  cases haccepted : accepted with
  | error panic => simp [Accept.withPeer, haccepted, bind, Except.bind] at h
  | ok fd =>
      refine ⟨fd, rfl, fun asSource => ?_⟩
      cases fd with
      | error e =>
          rw [haccepted] at h
          obtain rfl := Except.ok.inj h
          rfl
      | ok fd =>
          cases hpeer : fromRawAddr order accept.addr accept.len with
          | error panic => simp [Accept.withPeer, haccepted, hpeer, bind, Except.bind] at h
          | ok peer =>
              simp only [Accept.withPeer, haccepted, hpeer, bind, Except.bind, pure,
                Except.pure] at h
              obtain rfl := Except.ok.inj h
              rfl

/-- An accepted connection is decoded if its peer has an IP address. -/
theorem isOk_withPeer {fd : Fd} (h : accepted = .ok (.ok fd)) :
    (accept.withPeer order accepted).isOk = accept.addr.isInet order accept.len := by
  rw [← isOk_fromRawAddr]
  cases hpeer : fromRawAddr order accept.addr accept.len <;>
    simp [Accept.withPeer, h, hpeer, bind, Except.bind, pure, Except.pure, Except.isOk,
      Except.toBool]

end Peer

/-! ## The ten ops -/

/-- An op that completes once is polled as a future only and has no `next`. -/
def Op.once {O Out : Type} (op : Op O Opcode Out Cancellation) :
    MultiOp O Opcode Out Cancellation :=
  { op with next := op.result }

def Cancellation.ClosesNothing (cancel : Cancellation) : Prop :=
  cancel.consume = none ∧ Action.closes (cancel.drop.getD []) = []

/-- An op whose completions report new files and whose outputs carry them. -/
structure Opener where
  O : Type
  Out : Type
  op : MultiOp O Opcode Out Cancellation
  /-- Whether the op is a `MultiOp`, whose entry completes more than once. -/
  streams : Bool
  reports : O → RingResult → Option Target
  carries : Out → Option Target
  /-- Whether decoding a completion does not panic. -/
  decodes : O → RingResult → Bool
  result_carries : ∀ o res out, op.result o res = .ok out → carries out = reports o res
  next_carries : ∀ o res out, op.next o res = .ok out → carries out = reports o res
  result_isOk : ∀ o res, (op.result o res).isOk = decodes o res
  next_isOk : ∀ o res, (op.next o res).isOk = decodes o res
  /-- What a multishot entry reports does not depend on memory that is written. -/
  steady : streams = true → ∀ o o', reports o = reports o'
  cancel_closes : ∀ o, (op.cancel o).ClosesNothing

namespace Opener

/-- An op that decodes the number of the new file and nothing else. -/
def numbered {O Fd : Type} (op : MultiOp O Opcode (Except OsError Fd) Cancellation)
    (streams : Bool) (make : Int32 → Fd) (asSource : Fd → Target)
    (hresult : ∀ o res, op.result o res = expectNew make res)
    (hnext : ∀ o res, op.next o res = expectNew make res)
    (hcancel : ∀ o, (op.cancel o).ClosesNothing) : Opener where
  O := O
  Out := Except OsError Fd
  op := op
  streams := streams
  reports := fun _ => reported fun ret => asSource (make ret)
  carries := carried asSource
  decodes := fun _ res => decide (res.ret ≠ 0)
  result_carries := fun o res _ h => expectNew_carried asSource ((hresult o res).symm.trans h)
  next_carries := fun o res _ h => expectNew_carried asSource ((hnext o res).symm.trans h)
  result_isOk := fun o res => by rw [hresult, isOk_expectNew]
  next_isOk := fun o res => by rw [hnext, isOk_expectNew]
  steady := fun _ _ _ => rfl
  cancel_closes := hcancel

section Peered

variable {O Fd : Type} {make : Int32 → Fd} {order : ByteOrder} {accept : Accept}
  {res : RingResult}

theorem withPeer_carried (asSource : Fd → Target) {out : Except OsError (Fd × SocketAddr)}
    (h : accept.withPeer order (expectNew make res) = .ok out) :
    carried (fun pair => asSource pair.1) out = reported (fun ret => asSource (make ret)) res := by
  obtain ⟨fd, hfd, hcarried⟩ := withPeer_eq_ok h
  rw [hcarried asSource, expectNew_carried asSource hfd]

theorem isOk_withPeer_expectNew :
    (accept.withPeer order (expectNew make res)).isOk =
      (decide (res.ret < 0) ||
        decide (res.ret ≠ 0) && accept.addr.isInet order accept.len) := by
  by_cases hneg : res.ret < 0
  · simp [expectNew_of_neg hneg, hneg, Accept.withPeer, bind, Except.bind, pure, Except.pure,
      Except.isOk, Except.toBool]
  · by_cases hzero : res.ret = 0
    · simp [expectNew_of_zero hzero, hzero, Accept.withPeer, bind, Except.bind, Except.isOk,
        Except.toBool]
    · rw [isOk_withPeer (expectNew_of_pos hneg hzero)]
      simp [hneg, hzero]

/-- An accept that decodes the peer as well. -/
def peered (op : Op O Opcode (Except OsError (Fd × SocketAddr)) Cancellation)
    (accept : O → Accept) (order : ByteOrder) (make : Int32 → Fd) (asSource : Fd → Target)
    (hresult : ∀ o res, op.result o res = (accept o).withPeer order (expectNew make res))
    (hcancel : ∀ o, (op.cancel o).ClosesNothing) : Opener where
  O := O
  Out := Except OsError (Fd × SocketAddr)
  op := op.once
  streams := false
  reports := fun _ => reported fun ret => asSource (make ret)
  carries := carried fun pair => asSource pair.1
  decodes := fun o res => decide (res.ret < 0) ||
    decide (res.ret ≠ 0) && (accept o).addr.isInet order (accept o).len
  result_carries := fun o res _ h => withPeer_carried asSource ((hresult o res).symm.trans h)
  next_carries := fun o res _ h => withPeer_carried asSource ((hresult o res).symm.trans h)
  result_isOk := fun o res => by
    rw [show op.once.result o res = _ from hresult o res, isOk_withPeer_expectNew]
  next_isOk := fun o res => by
    rw [show op.once.next o res = _ from hresult o res, isOk_withPeer_expectNew]
  steady := fun _ _ _ => rfl
  cancel_closes := hcancel

end Peered

section Register

/-- The slot that the kernel wrote in place of the descriptor. -/
def registered (register : RegisterFile) (res : RingResult) : Option Target :=
  if res.ret = 1 then some (DirectAutoFd.ofRet register.fd).asSource else none

variable {register : RegisterFile} {res : RingResult}

theorem register_carried {out : Except OsError DirectAutoFd}
    (h : RegisterFile.op.result register res = .ok out) :
    carried DirectAutoFd.asSource out = registered register res := by
  simp only [RegisterFile.op] at h
  split at h
  · next hone =>
      rw [← Except.ok.inj h, registered, if_pos hone]
      rfl
  · next hone =>
      rw [registered, if_neg hone]
      split at h
      · rw [← Except.ok.inj h]
        rfl
      · simp at h

theorem isOk_register : (RegisterFile.op.result register res).isOk =
    (decide (res.ret = 1) || decide (res.ret < 0)) := by
  by_cases hone : res.ret = 1
  · simp [RegisterFile.op, hone, Except.isOk, Except.toBool]
  · by_cases hneg : res.ret < 0 <;>
      simp [RegisterFile.op, hone, hneg, Except.isOk, Except.toBool]

end Register

def registerFile : Opener where
  O := RegisterFile
  Out := Except OsError DirectAutoFd
  op := RegisterFile.op.once
  streams := false
  reports := registered
  carries := carried DirectAutoFd.asSource
  decodes := fun _ res => decide (res.ret = 1) || decide (res.ret < 0)
  result_carries := fun _ _ _ => register_carried
  next_carries := fun _ _ _ => register_carried
  result_isOk := fun _ _ => isOk_register
  next_isOk := fun _ _ => isOk_register
  steady := fun h => Bool.noConfusion h
  cancel_closes := fun _ => ⟨rfl, rfl⟩

end Opener

/-- The ops whose successful completion carries a new descriptor. -/
inductive DescriptorOp
  | openAt
  | openAtAuto
  | socket
  | socketAuto
  | accept (order : ByteOrder)
  | acceptAuto (order : ByteOrder)
  | acceptMulti
  | acceptMultiAuto
  | registerFile
  | installSlot
deriving DecidableEq, Repr

def DescriptorOp.opener : DescriptorOp → Opener
  | .openAt => .numbered OpenAt.op.once false id .fd (fun _ _ => rfl) (fun _ _ => rfl)
      fun _ => ⟨rfl, rfl⟩
  | .openAtAuto => .numbered OpenAtAuto.op.once false DirectAutoFd.ofRet DirectAutoFd.asSource
      (fun _ _ => rfl) (fun _ _ => rfl) fun _ => ⟨rfl, rfl⟩
  | .socket => .numbered Socket.op.once false id .fd (fun _ _ => rfl) (fun _ _ => rfl)
      fun _ => ⟨rfl, rfl⟩
  | .socketAuto => .numbered SocketAuto.op.once false DirectAutoFd.ofRet DirectAutoFd.asSource
      (fun _ _ => rfl) (fun _ _ => rfl) fun _ => ⟨rfl, rfl⟩
  | .accept order => .peered (Accept.op order) id order id .fd (fun _ _ => rfl)
      fun _ => ⟨rfl, rfl⟩
  | .acceptAuto order => .peered (AcceptAuto.op order) AcceptAuto.inner order DirectAutoFd.ofRet
      DirectAutoFd.asSource
      (fun _ _ => rfl) fun _ => ⟨rfl, rfl⟩
  | .acceptMulti => .numbered AcceptMulti.op true id .fd (fun _ _ => rfl) (fun _ _ => rfl)
      fun _ => ⟨rfl, rfl⟩
  | .acceptMultiAuto => .numbered AcceptMultiAuto.op true DirectAutoFd.ofRet DirectAutoFd.asSource
      (fun _ _ => rfl) (fun _ _ => rfl) fun _ => ⟨rfl, rfl⟩
  | .registerFile => .registerFile
  | .installSlot => .numbered InstallSlot.op.once false id .fd (fun _ _ => rfl) (fun _ _ => rfl)
      fun _ => ⟨rfl, rfl⟩

end Inel.Reactor
