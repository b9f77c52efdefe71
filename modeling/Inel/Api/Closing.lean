import Inel.Op.Chain
import Inel.Reactor.SlotOwners

/-!
# Closing files

A wrapper of a file closes it as it is dropped: one of a descriptor by a
detached close, one of a direct slot by a detached close or by giving the slot
back, and a direct stream shuts the connection down first. Whether the kernel
executes the close depends on what it is linked to.
-/

namespace Inel.Reactor

structure OwnedFd where
  fd : Int32
deriving DecidableEq, Repr

variable {W C : Type}

namespace OwnedFd

def drop (owned : OwnedFd) (ring : Ring Sqe W C) : Except Panic (Ring Sqe W C) :=
  if 0 < owned.fd then ring.submitDetached (Close.entry (.fd owned.fd)) else .ok ring

/-- The wrapper is forgotten, so it is not dropped. -/
def intoRaw (owned : OwnedFd) (ring : Ring Sqe W C) : Int32 × Ring Sqe W C := (owned.fd, ring)

end OwnedFd

/-- `DirectTcpStream::drop`, after which its slot is dropped. -/
def DirectTcpStream.drop (direct : OwnedDirect) (ring : Ring Sqe W C) :
    Except Panic (Ring Sqe W C) := do
  let ring ← ring.submitDetached (Shutdown.entry direct.asSource .both).chain
  OwnedDirect.drop Close.entry ring direct

inductive Wrapper
  | file (fd : OwnedFd)
  | tcpStream (sock : OwnedFd)
  | tcpListener (sock : OwnedFd)
  | directFile (direct : OwnedDirect)
  | directTcpStream (direct : OwnedDirect)
  | directTcpListener (direct : OwnedDirect)
deriving DecidableEq, Repr

namespace Wrapper

def asSource : Wrapper → Target
  | .file owned | .tcpStream owned | .tcpListener owned => .fd owned.fd
  | .directFile direct | .directTcpStream direct | .directTcpListener direct => direct.asSource

def drop (ring : Ring Sqe W C) : Wrapper → Except Panic (Ring Sqe W C)
  | .file owned | .tcpStream owned | .tcpListener owned => owned.drop ring
  | .directFile direct | .directTcpListener direct => OwnedDirect.drop Close.entry ring direct
  | .directTcpStream direct => DirectTcpStream.drop direct ring

/-- Wrappers of a slot have none. -/
def intoRawFd (ring : Ring Sqe W C) : Wrapper → Option (Int32 × Ring Sqe W C)
  | .file owned | .tcpStream owned | .tcpListener owned => some (owned.intoRaw ring)
  | _ => none

/-- How often the kernel closes the file in this batch. -/
def closes (wrapper : Wrapper) (ring : Ring Sqe W C) (ok : Nat → Bool) : Nat :=
  (ring.executed ok).countP fun sqe => sqe.request == .close wrapper.asSource

/-- Dropping the wrapper makes the kernel close the file once, if each entry of
the batch ends as `ok` tells. -/
def ClosesOnce (wrapper : Wrapper) (ring : Ring Sqe W C) (ok : Nat → Bool) : Prop :=
  ∃ ring', wrapper.drop ring = .ok ring' ∧
    wrapper.closes ring' ok = wrapper.closes ring ok + 1

/-- A close that is queued is executed: there is room for it, and it does not
come behind a linked entry that fails. -/
def closable (ring : Ring Sqe W C) (ok : Nat → Bool) : Wrapper → Bool
  | .file owned | .tcpStream owned | .tcpListener owned =>
      0 < owned.fd && ring.room 1 && !ring.cut ok
  | .directFile (.auto _) | .directTcpListener (.auto _) => ring.room 1 && !ring.cut ok
  | .directTcpStream (.auto _) => ring.room 2 && !ring.cut ok && ok ring.queue.length
  | .directFile (.manual _) | .directTcpListener (.manual _) | .directTcpStream (.manual _) =>
      false

variable {wrapper : Wrapper} {ring ring' : Ring Sqe W C} {ok : Nat → Bool}

theorem closes_push {sqe : Sqe} (userData : UInt64)
    (h : ring'.queue = ring.queue ++ [⟨sqe, userData⟩]) :
    wrapper.closes ring' ok = wrapper.closes ring ok +
      if !ring.cut ok && sqe.request == .close wrapper.asSource then 1 else 0 := by
  unfold closes
  rw [Ring.executed_push userData h, List.countP_append]
  cases ring.cut ok with
  | true => rfl
  | false => simp [List.countP_cons]

theorem submitClose_iff (wrapper : Wrapper) (ring : Ring Sqe W C) (ok : Nat → Bool) :
    (∃ ring', ring.submitDetached (Close.entry wrapper.asSource) = .ok ring' ∧
      wrapper.closes ring' ok = wrapper.closes ring ok + 1) ↔
    (ring.room 1 && !ring.cut ok) = true := by
  rw [Bool.and_eq_true, Bool.not_eq_true']
  constructor
  · intro h
    obtain ⟨ring', hsubmit, hcloses⟩ := h
    obtain ⟨hroom, rfl⟩ := Ring.submitDetached_iff.mp hsubmit
    rw [closes_push ignoreKey rfl] at hcloses
    cases hcut : ring.cut ok with
    | true =>
        rw [hcut] at hcloses
        simp at hcloses
    | false => exact ⟨hroom, rfl⟩
  · intro h
    refine ⟨_, Ring.submitDetached_iff.mpr ⟨h.1, rfl⟩, ?_⟩
    rw [closes_push ignoreKey rfl, h.2]
    simp [Close.entry, Sqe.single]

/-- The close comes behind the shutdown and is executed if that succeeds. -/
theorem dropStream_iff {direct : DirectAutoFd}
    (hwrapper : wrapper = .directTcpStream (.auto direct)) :
    (∃ ring', DirectTcpStream.drop (.auto direct) ring = .ok ring' ∧
      wrapper.closes ring' ok = wrapper.closes ring ok + 1) ↔
    (ring.room 2 && !ring.cut ok && ok ring.queue.length) = true := by
  have hsource : wrapper.asSource = direct.asSource := by rw [hwrapper]; rfl
  let shut : Ring Sqe W C := { ring with
    queue := ring.queue ++ [⟨(Shutdown.entry direct.asSource .both).chain, ignoreKey⟩]
    detached := ring.detached + 1 }
  have hcloses : wrapper.closes shut ok = wrapper.closes ring ok := by
    rw [closes_push ignoreKey rfl]
    simp [Shutdown.entry, Sqe.chain, Sqe.single]
  have hcut : shut.cut ok = (ring.cut ok || !ok ring.queue.length) := by
    rw [Ring.cut_push ignoreKey rfl]
    rfl
  have hroom : shut.room 1 = ring.room 2 := by
    unfold Ring.room
    simp only [shut, List.length_append, List.length_singleton, Nat.add_assoc]
  have hclose := submitClose_iff wrapper shut ok
  rw [hsource, hcloses, hcut, hroom] at hclose
  have hcond : (ring.room 2 && !(ring.cut ok || !ok ring.queue.length)) =
      (ring.room 2 && !ring.cut ok && ok ring.queue.length) := by
    cases ring.room 2 <;> cases ring.cut ok <;> cases ok ring.queue.length <;> rfl
  rw [← hcond, ← hclose]
  constructor
  · intro h
    obtain ⟨ring', hdrop, hcount⟩ := h
    obtain ⟨shut', hshut, hdropped⟩ := Transitions.bind_eq_ok hdrop
    have hshut' := (Ring.submitDetached_iff.mp hshut).2
    rw [hshut'] at hdropped
    exact ⟨ring', hdropped, hcount⟩
  · intro h
    obtain ⟨ring', hdropped, hcount⟩ := h
    have hroom2 : ring.room 2 = true := by
      rw [← hroom]
      exact (Ring.submitDetached_iff.mp hdropped).1
    have hroom1 : ring.room 1 = true := by
      unfold Ring.room at hroom2 ⊢
      rw [decide_eq_true_eq] at hroom2 ⊢
      omega
    refine ⟨ring', ?_, hcount⟩
    unfold DirectTcpStream.drop
    rw [show (OwnedDirect.auto direct).asSource = direct.asSource from rfl,
      Ring.submitDetached_iff.mpr ⟨hroom1, rfl⟩]
    exact hdropped

theorem dropFd_iff {owned : OwnedFd} (hsource : wrapper.asSource = .fd owned.fd) :
    (∃ ring', owned.drop ring = .ok ring' ∧
      wrapper.closes ring' ok = wrapper.closes ring ok + 1) ↔
    (0 < owned.fd && ring.room 1 && !ring.cut ok) = true := by
  unfold OwnedFd.drop
  by_cases hpos : 0 < owned.fd
  · have hclose := submitClose_iff wrapper ring ok
    rw [hsource] at hclose
    simpa [hpos] using hclose
  · rw [if_neg hpos]
    simp [hpos]

/-- A slot that goes back to the register keeps its file. -/
theorem closes_release (direct : DirectFd) :
    wrapper.closes (direct.release ring) ok = wrapper.closes ring ok := rfl

theorem not_dropManual {direct : DirectFd} :
    ¬ ∃ ring', OwnedDirect.drop Close.entry ring (.manual direct) = .ok ring' ∧
      wrapper.closes ring' ok = wrapper.closes ring ok + 1 := by
  intro h
  obtain ⟨ring', hdrop, hcloses⟩ := h
  rw [← Except.ok.inj hdrop, closes_release] at hcloses
  omega

theorem not_dropManualStream {direct : DirectFd} :
    ¬ ∃ ring', DirectTcpStream.drop (.manual direct) ring = .ok ring' ∧
      wrapper.closes ring' ok = wrapper.closes ring ok + 1 := by
  intro h
  obtain ⟨ring', hdrop, hcloses⟩ := h
  obtain ⟨shut, hshut, hdropped⟩ := Transitions.bind_eq_ok hdrop
  have hshut' := (Ring.submitDetached_iff.mp hshut).2
  rw [← Except.ok.inj hdropped, closes_release, closes_push ignoreKey (by rw [hshut'])] at hcloses
  simp [Shutdown.entry, Sqe.chain, Sqe.single] at hcloses

theorem closesOnce_iff : wrapper.ClosesOnce ring ok ↔ wrapper.closable ring ok = true := by
  unfold ClosesOnce
  cases wrapper with
  | file owned => exact dropFd_iff rfl
  | tcpStream owned => exact dropFd_iff rfl
  | tcpListener owned => exact dropFd_iff rfl
  | directFile direct =>
      cases direct with
      | manual direct => exact iff_of_false not_dropManual Bool.false_ne_true
      | auto direct => exact submitClose_iff (.directFile (.auto direct)) ring ok
  | directTcpStream direct =>
      cases direct with
      | manual direct => exact iff_of_false not_dropManualStream Bool.false_ne_true
      | auto direct => exact dropStream_iff rfl
  | directTcpListener direct =>
      cases direct with
      | manual direct => exact iff_of_false not_dropManual Bool.false_ne_true
      | auto direct => exact submitClose_iff (.directTcpListener (.auto direct)) ring ok

/-- Exactly when dropping a wrapper closes its file once; taking the descriptor
out of a wrapper never closes it. -/
theorem drop_closes_once_iff (wrapper : Wrapper) (ring : Ring Sqe W C) (ok : Nat → Bool) :
    (wrapper.ClosesOnce ring ok ↔ wrapper.closable ring ok = true) ∧
      (wrapper.intoRawFd ring).all
        (fun raw => wrapper.closes raw.2 ok == wrapper.closes ring ok) = true := by
  constructor
  · exact closesOnce_iff
  · cases wrapper <;> simp [intoRawFd, OwnedFd.intoRaw]

/-- Descriptor 0 and the slot of a listener are not closed, and a direct stream
is not when its shutdown fails. -/
theorem not_closed_once :
    ¬ (file ⟨0⟩).ClosesOnce (Ring.build {} 2048 : Ring Sqe Unit Unit) (fun _ => true) ∧
    ¬ (directTcpListener (.manual ⟨0⟩)).ClosesOnce (Ring.build {} 2048 : Ring Sqe Unit Unit)
      (fun _ => true) ∧
    ¬ (directTcpStream (.auto ⟨16⟩)).ClosesOnce (Ring.build {} 2048 : Ring Sqe Unit Unit)
      (fun i => i != 0) := by
  rw [closesOnce_iff, closesOnce_iff, closesOnce_iff]
  decide

end Wrapper

end Inel.Reactor
