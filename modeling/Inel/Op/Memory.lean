import Inel.Op.Address
import Inel.Op.Group

/-!
# Memory of ops

An entry points the kernel at memory, which has to stay where it is until the
entry completes. When an op is given up early that is the task of its
cancellation: it owns heap allocations and frees them as it is dropped. All else
that the op holds is gone by then.
-/

namespace Inel.Reactor

/-- Where memory is. What is inline moves and ends with the op. -/
inductive Storage
  | static
  | heap (block : Boxed)
  | inline
deriving DecidableEq, Repr

/-- Some bytes that an entry points to. -/
structure Region where
  storage : Storage
  size : Nat
deriving DecidableEq, Repr

/-- A pointer to no bytes points at no memory. -/
def Storage.region (storage : Storage) (size : Nat) : List Region :=
  if size = 0 then [] else [⟨storage, size⟩]

/-! ## Paths -/

/-- So many bytes, and one at their end. -/
structure CString where
  address : Nat
  bytes : Nat
deriving DecidableEq, Repr

namespace CString

def block (path : CString) : Boxed := ⟨path.address, path.bytes + 1⟩

/-- What `drop_raw` frees: it drops a `Vec` of the bytes alone, and one with room for
none frees nothing. -/
def cancel (path : CString) : List Boxed := if path.bytes = 0 then [] else [path.block]

theorem mem_cancel {path : CString} {block : Boxed} :
    block ∈ path.cancel ↔ path.bytes ≠ 0 ∧ block = path.block := by
  unfold cancel
  split
  · next hbytes => simp [hbytes]
  · next hbytes => simp [hbytes]

end CString

/-! ## Buffers -/

/-- The implementations of `StableBuffer`. -/
inductive Buffer
  /-- `&'static str` and `&'static [u8]`. -/
  | static (len : Nat)
  /-- `Box<[u8; N]>`, by the address and `N`. -/
  | array (block : Boxed)
  /-- `Box<[u8]>`, `Vec<u8>` and `String`. -/
  | owned (block : Boxed)
  /-- `Option<Box<[u8]>>` without a box. -/
  | absent
  | fixed (block : Boxed)
  /-- `stop` is empty for a range that goes to the end. -/
  | view (inner : Buffer) (start : Nat) (stop : Option Nat)
deriving DecidableEq, Repr

namespace Buffer

def size : Buffer → Nat
  | .static len => len
  | .array block => block.size
  | .owned block => block.size
  | .absent => 0
  | .fixed block => block.size
  | .view inner start stop => (stop.elim inner.size (min · inner.size)) - start

def storage : Buffer → Storage
  | .static _ => .static
  | .array block => .heap block
  | .owned block => .heap block
  | .absent => .static
  | .fixed block => .heap block
  | .view inner _ _ => inner.storage

def points (buf : Buffer) : List Region := buf.storage.region buf.size

/-- What `drop_raw` frees of a cancellation made from the buffer. That of a box of
anything but a slice drops a `Box<()>`, which frees nothing. -/
def cancel : Buffer → List Boxed
  | .static _ => []
  | .array _ => []
  | .owned block => [block]
  | .absent => []
  | .fixed block => [block]
  | .view inner _ _ => inner.cancel

/-- A `Box<[u8; N]>` or a view of one. -/
def isArray : Buffer → Bool
  | .array _ => true
  | .view inner _ _ => inner.isArray
  | _ => false

/-- All buffers but arrays of which bytes are pointed at. -/
def keepsMemory (buf : Buffer) : Bool := buf.size == 0 || !buf.isArray

theorem storage_kept {buf : Buffer} (h : buf.isArray = false) :
    buf.storage = .static ∨ ∃ block ∈ buf.cancel, buf.storage = .heap block := by
  induction buf with
  | static len => exact Or.inl rfl
  | array block => exact Bool.noConfusion h
  | owned block => exact Or.inr ⟨block, List.mem_singleton_self block, rfl⟩
  | absent => exact Or.inl rfl
  | fixed block => exact Or.inr ⟨block, List.mem_singleton_self block, rfl⟩
  | view inner start stop ih => exact ih h

/-- The box of an array stays in no cancellation. -/
theorem storage_left {buf : Buffer} (h : buf.isArray = true) :
    (∃ block, buf.storage = .heap block) ∧ buf.cancel = [] := by
  induction buf with
  | array block => exact ⟨⟨block, rfl⟩, rfl⟩
  | view inner start stop ih => exact ih h
  | _ => exact Bool.noConfusion h

end Buffer

def combine (cancels : List (List Boxed)) : List Boxed := cancels.flatten

/-! ## Ops -/

def sizeOfIovec : Nat := 16

def sizeOfTimespec : Nat := 16

def sizeOfFd : Nat := 4

/-- `libc::statx`. -/
def sizeOfStatx : Nat := 256

/-- An address with its length, as `Accept` has them in a box. -/
def sizeOfPeer : Nat := 32

/-- The length that `into_raw_addr` gives with the address. -/
def SocketAddr.rawLen : SocketAddr → Nat
  | .v4 .. => sizeOfSockaddrIn.toNat
  | .v6 .. => sizeOfSockaddrIn6.toNat

/-- `ReadVectored` and `WriteVectored`, whose array of `iovec`s is a `Vec`. -/
structure Vectored where
  bufs : List Buffer
  iovecs : Nat
  /-- Allocations are apart from each other. -/
  apart : ∀ buf ∈ bufs, ⟨iovecs, sizeOfIovec * bufs.length⟩ ∉ buf.cancel

namespace Vectored

def block (vectored : Vectored) : Boxed := ⟨vectored.iovecs, sizeOfIovec * vectored.bufs.length⟩

/-- The array, and through it each buffer. -/
def points (vectored : Vectored) : List Region :=
  (Storage.heap vectored.block).region vectored.block.size ++
    vectored.bufs.flatMap Buffer.points

/-- The array is dropped with the op. -/
def cancel (vectored : Vectored) : List Boxed := combine (vectored.bufs.map Buffer.cancel)

end Vectored

/-- `ReadVectoredExact` and `WriteVectoredExact`, whose array is a field. -/
structure VectoredExact where
  bufs : List Buffer
deriving DecidableEq, Repr

namespace VectoredExact

def points (vectored : VectoredExact) : List Region :=
  Storage.inline.region (sizeOfIovec * vectored.bufs.length) ++
    vectored.bufs.flatMap Buffer.points

def cancel (vectored : VectoredExact) : List Boxed := combine (vectored.bufs.map Buffer.cancel)

end VectoredExact

/-- The implementations of `Op`, each with the memory that it holds; a box whose size
is the type's is given by its address. -/
inductive AnyOp
  | nop
  | chain (inner : AnyOp)
  | registerFile
  | installSlot
  | openAt (path : CString)
  | openAtDirect (path : CString)
  | openAtAuto (path : CString)
  | close
  | fSync
  | statx (stats : Nat)
  | mkDirAt (path : CString)
  | fTruncate
  | fAdvise
  | fAllocate
  | provideBuffer (buffer : Boxed)
  | removeBuffers
  | readGroup
  | readGroupMulti
  | linkAt (fromPath toPath : CString)
  | symlinkAt (path target : CString)
  | unlinkAt (path : CString)
  | socket
  | socketFixed
  | socketAuto
  | bind (addr : SocketAddr)
  | listen
  | connect (addr : SocketAddr)
  | accept (addr : Nat)
  | acceptFixed (addr : Nat)
  | acceptAuto (addr : Nat)
  | shutdown
  | acceptMulti
  | acceptMultiAuto
  | read (buf : Buffer)
  | readFixed (buf : Buffer)
  | readVectored (bufs : Vectored)
  | readVectoredExact (bufs : VectoredExact)
  | timeout
  | write (buf : Buffer)
  | writeFixed (buf : Buffer)
  | writeVectored (bufs : Vectored)
  | writeVectoredExact (bufs : VectoredExact)

namespace AnyOp

/-- What is in a box of the op. -/
def boxed (block : Boxed) : List Region := (Storage.heap block).region block.size

/-- The regions that `entry` points the kernel at. -/
def points : AnyOp → List Region
  | .chain inner => inner.points
  | .registerFile => Storage.inline.region sizeOfFd
  | .openAt path | .openAtDirect path | .openAtAuto path => boxed path.block
  -- the path is a literal
  | .statx stats => Storage.static.region 1 ++ boxed ⟨stats, sizeOfStatx⟩
  | .mkDirAt path | .unlinkAt path => boxed path.block
  | .provideBuffer buffer => boxed buffer
  | .linkAt fromPath toPath => boxed fromPath.block ++ boxed toPath.block
  | .symlinkAt path target => boxed target.block ++ boxed path.block
  | .bind addr | .connect addr => Storage.inline.region addr.rawLen
  -- address and length are in one box
  | .accept addr | .acceptFixed addr | .acceptAuto addr => boxed ⟨addr, sizeOfPeer⟩
  | .read buf | .readFixed buf | .write buf | .writeFixed buf => buf.points
  | .readVectored bufs | .writeVectored bufs => bufs.points
  | .readVectoredExact bufs | .writeVectoredExact bufs => bufs.points
  | .timeout => Storage.inline.region sizeOfTimespec
  | _ => []

/-- The allocations that `drop_raw` frees of what `cancel` returns. -/
def cancel : AnyOp → List Boxed
  | .chain inner => inner.cancel
  | .openAt path | .openAtDirect path | .openAtAuto path => path.cancel
  -- `Box<T>`: a `Box<()>` is dropped
  | .statx _ => []
  | .mkDirAt path | .unlinkAt path => path.cancel
  | .linkAt fromPath toPath => combine [fromPath.cancel, toPath.cancel]
  | .symlinkAt path target => combine [path.cancel, target.cancel]
  | .accept _ | .acceptFixed _ | .acceptAuto _ => []
  | .read buf | .readFixed buf | .write buf | .writeFixed buf => buf.cancel
  | .readVectored bufs | .writeVectored bufs => bufs.cancel
  | .readVectoredExact bufs | .writeVectoredExact bufs => bufs.cancel
  | _ => []

/-- Memory that outlives the op. -/
def Kept (cancel : List Boxed) (region : Region) : Prop :=
  region.storage = .static ∨ ∃ block ∈ cancel, region.storage = .heap block

/-- The contract of `Op`: what the entry points to is static or the cancellation's. -/
def Contract (op : AnyOp) : Prop := ∀ region ∈ op.points, Kept op.cancel region

/-- The ops that keep the contract: all but those with an array, an address, a
descriptor or a time beside the buffers, those with a box that is not of a slice, and
the one whose buffer is its group's; and no path is empty. -/
def keepsMemory : AnyOp → Bool
  | .chain inner => inner.keepsMemory
  | .registerFile | .bind _ | .connect _ | .timeout => false
  | .statx _ | .accept _ | .acceptFixed _ | .acceptAuto _ => false
  | .openAt path | .openAtDirect path | .openAtAuto path => path.bytes != 0
  | .mkDirAt path | .unlinkAt path => path.bytes != 0
  | .linkAt fromPath toPath => fromPath.bytes != 0 && toPath.bytes != 0
  | .symlinkAt path target => path.bytes != 0 && target.bytes != 0
  | .provideBuffer buffer => buffer.size == 0
  | .read buf | .readFixed buf | .write buf | .writeFixed buf => buf.keepsMemory
  | .readVectored bufs | .writeVectored bufs => bufs.bufs.isEmpty
  | .readVectoredExact bufs | .writeVectoredExact bufs => bufs.bufs.isEmpty
  | _ => true

/-! ## Who keeps the contract -/

theorem mem_region {storage : Storage} {size : Nat} {region : Region}
    (h : region ∈ storage.region size) : region.storage = storage := by
  unfold Storage.region at h
  split at h
  · simp at h
  · rw [List.mem_singleton.mp h]

theorem inline_not_kept (cancel : List Boxed) {size : Nat} (h : size ≠ 0) :
    ∃ region ∈ Storage.inline.region size, ¬ Kept cancel region := by
  refine ⟨⟨.inline, size⟩, by simp [Storage.region, h], ?_⟩
  intro hkept
  cases hkept with
  | inl hstatic => exact Storage.noConfusion hstatic
  | inr hheap => exact Storage.noConfusion hheap.choose_spec.2

theorem heap_kept {cancel : List Boxed} {block : Boxed} {region : Region} {size : Nat}
    (hblock : block ∈ cancel) (h : region ∈ (Storage.heap block).region size) :
    Kept cancel region :=
  Or.inr ⟨block, hblock, mem_region h⟩

theorem heap_not_kept {cancel : List Boxed} {block : Boxed} (hsize : block.size ≠ 0)
    (h : block ∉ cancel) : ∃ region ∈ boxed block, ¬ Kept cancel region := by
  refine ⟨⟨.heap block, block.size⟩, by simp [boxed, Storage.region, hsize], ?_⟩
  intro hkept
  cases hkept with
  | inl hstatic => exact Storage.noConfusion hstatic
  | inr hheap =>
      obtain ⟨other, hmem, heq⟩ := hheap
      rw [Storage.heap.inj heq] at h
      exact h hmem

/-- A buffer is static or its cancellation's, unless it is an array. -/
theorem buffer_iff (buf : Buffer) :
    (∀ region ∈ buf.points, Kept buf.cancel region) ↔ buf.keepsMemory = true := by
  unfold Buffer.keepsMemory
  by_cases hsize : buf.size = 0
  · refine iff_of_true (fun region h => ?_) (by simp [hsize])
    simp [Buffer.points, Storage.region, hsize] at h
  · rw [show (buf.size == 0) = false from beq_false_of_ne hsize, Bool.false_or]
    cases harray : buf.isArray with
    | true =>
        refine iff_of_false (fun h => ?_) Bool.false_ne_true
        obtain ⟨⟨block, hstorage⟩, hcancel⟩ := Buffer.storage_left harray
        have hregion : ⟨.heap block, buf.size⟩ ∈ buf.points := by
          simp [Buffer.points, Storage.region, hstorage, hsize]
        cases h _ hregion with
        | inl hstatic => exact Storage.noConfusion hstatic
        | inr hheap => simp [hcancel] at hheap
    | false =>
        refine iff_of_true (fun region h => ?_) rfl
        have hstorage := mem_region h
        cases Buffer.storage_kept harray with
        | inl hstatic => exact Or.inl (hstorage.trans hstatic)
        | inr hheap =>
            obtain ⟨block, hmem, heq⟩ := hheap
            exact Or.inr ⟨block, hmem, hstorage.trans heq⟩

theorem empty_not_kept {cancel : List Boxed} {path : CString} (hbytes : path.bytes = 0)
    (hcancel : ∀ block ∈ cancel, ∃ other : CString, block ∈ other.cancel) :
    ∃ region ∈ boxed path.block, ¬ Kept cancel region := by
  refine heap_not_kept (Nat.succ_ne_zero path.bytes) fun hmem => ?_
  obtain ⟨other, hother⟩ := hcancel _ hmem
  obtain ⟨hne, heq⟩ := CString.mem_cancel.mp hother
  have hsize : path.bytes + 1 = other.bytes + 1 := congrArg Boxed.size heq
  omega

theorem paths_iff {cancel : List Boxed} (first second : CString)
    (hcancel : ∀ block, block ∈ cancel ↔ block ∈ first.cancel ∨ block ∈ second.cancel) :
    (∀ region ∈ boxed first.block ++ boxed second.block, Kept cancel region) ↔
      (first.bytes != 0 && second.bytes != 0) = true := by
  have hpaths : ∀ block ∈ cancel, ∃ other : CString, block ∈ other.cancel := fun block hmem =>
    ((hcancel block).mp hmem).elim (fun h => ⟨first, h⟩) (fun h => ⟨second, h⟩)
  simp only [Bool.and_eq_true, bne_iff_ne]
  constructor
  · intro h
    constructor
    · intro hbytes
      obtain ⟨region, hregion, hnot⟩ := empty_not_kept hbytes hpaths
      exact hnot (h region (List.mem_append_left _ hregion))
    · intro hbytes
      obtain ⟨region, hregion, hnot⟩ := empty_not_kept hbytes hpaths
      exact hnot (h region (List.mem_append_right _ hregion))
  · rintro ⟨hfirst, hsecond⟩ region hregion
    cases List.mem_append.mp hregion with
    | inl hleft =>
        exact heap_kept ((hcancel _).mpr (Or.inl (CString.mem_cancel.mpr ⟨hfirst, rfl⟩))) hleft
    | inr hright =>
        exact heap_kept ((hcancel _).mpr (Or.inr (CString.mem_cancel.mpr ⟨hsecond, rfl⟩))) hright

theorem path_iff (path : CString) :
    (∀ region ∈ boxed path.block, Kept path.cancel region) ↔ (path.bytes != 0) = true := by
  have hcancel : ∀ block, block ∈ path.cancel ↔ block ∈ path.cancel ∨ block ∈ path.cancel :=
    fun block => or_self_iff.symm
  have hpaths := paths_iff path path hcancel
  rwa [List.forall_mem_append, and_self_iff, Bool.and_self] at hpaths

theorem mem_combine {bufs : List Buffer} {block : Boxed} :
    block ∈ combine (bufs.map Buffer.cancel) ↔ ∃ buf ∈ bufs, block ∈ buf.cancel := by
  simp [combine]

/-- A vectored op points at its array unless it has no buffers. -/
theorem vectored_iff (bufs : Vectored) :
    (∀ region ∈ bufs.points, Kept bufs.cancel region) ↔ bufs.bufs.isEmpty = true := by
  constructor
  · intro h
    cases hbufs : bufs.bufs with
    | nil => rfl
    | cons buf rest =>
        have hsize : bufs.block.size ≠ 0 := by
          simp [Vectored.block, hbufs, sizeOfIovec]
        have hout : bufs.block ∉ bufs.cancel := by
          intro hmem
          obtain ⟨other, hother, hcancel⟩ := mem_combine.mp hmem
          exact bufs.apart other hother hcancel
        obtain ⟨region, hregion, hnot⟩ := heap_not_kept hsize hout
        exact absurd (h region (List.mem_append_left _ hregion)) hnot
  · intro h region hregion
    have hnil := List.isEmpty_iff.mp h
    simp [Vectored.points, Vectored.block, hnil, Storage.region] at hregion

theorem vectoredExact_iff (bufs : VectoredExact) :
    (∀ region ∈ bufs.points, Kept bufs.cancel region) ↔ bufs.bufs.isEmpty = true := by
  constructor
  · intro h
    cases hbufs : bufs.bufs with
    | nil => rfl
    | cons buf rest =>
        have hsize : sizeOfIovec * bufs.bufs.length ≠ 0 := by simp [hbufs, sizeOfIovec]
        obtain ⟨region, hregion, hnot⟩ := inline_not_kept bufs.cancel hsize
        exact absurd (h region (List.mem_append_left _ hregion)) hnot
  · intro h region hregion
    have hnil := List.isEmpty_iff.mp h
    simp [VectoredExact.points, hnil, Storage.region] at hregion

theorem rawLen_ne_zero (addr : SocketAddr) : addr.rawLen ≠ 0 := by
  cases addr with
  | v4 ip port =>
      show sizeOfSockaddrIn.toNat ≠ 0
      decide
  | v6 ip port flowinfo scopeId =>
      show sizeOfSockaddrIn6.toNat ≠ 0
      decide

theorem not_contract {op : AnyOp} (h : ∃ region ∈ op.points, ¬ Kept op.cancel region) :
    ¬ op.Contract := by
  intro hcontract
  obtain ⟨region, hregion, hnot⟩ := h
  exact hnot (hcontract region hregion)

theorem box_not_contract (op : AnyOp) {address size : Nat} (hsize : size ≠ 0)
    (hcancel : op.cancel = []) (h : ∀ region ∈ boxed ⟨address, size⟩, region ∈ op.points) :
    ¬ op.Contract := by
  have hout : ⟨address, size⟩ ∉ op.cancel := by
    rw [hcancel]
    exact List.not_mem_nil
  obtain ⟨region, hregion, hnot⟩ := heap_not_kept hsize hout
  exact not_contract ⟨region, h region hregion, hnot⟩

/-- An op keeps the contract of `Op` if and only if it has no array, address,
descriptor or time that the kernel reads, no box but of a slice, no empty path and
no buffer that is its group's. -/
theorem contract_iff (op : AnyOp) : op.Contract ↔ op.keepsMemory = true := by
  induction op with
  | chain inner ih => exact ih
  | registerFile =>
      exact iff_of_false (not_contract (inline_not_kept _ (by decide))) Bool.false_ne_true
  | bind addr | connect addr =>
      exact iff_of_false (not_contract (inline_not_kept _ (rawLen_ne_zero addr)))
        Bool.false_ne_true
  | timeout =>
      exact iff_of_false (not_contract (inline_not_kept _ (by decide))) Bool.false_ne_true
  | statx stats =>
      refine iff_of_false ?_ Bool.false_ne_true
      have hsize : sizeOfStatx ≠ 0 := by decide
      exact box_not_contract (.statx stats) hsize rfl fun _ h => List.mem_append_right _ h
  | accept addr | acceptFixed addr | acceptAuto addr =>
      refine iff_of_false ?_ Bool.false_ne_true
      have hsize : sizeOfPeer ≠ 0 := by decide
      exact box_not_contract _ hsize rfl fun _ h => h
  | provideBuffer buffer =>
      show _ ↔ (buffer.size == 0) = true
      rw [beq_iff_eq]
      constructor
      · intro h
        by_contra hsize
        exact box_not_contract (.provideBuffer buffer) hsize rfl (fun _ h => h) h
      · intro hsize region hregion
        simp [points, boxed, Storage.region, hsize] at hregion
  | readVectored bufs | writeVectored bufs => exact vectored_iff bufs
  | readVectoredExact bufs | writeVectoredExact bufs => exact vectoredExact_iff bufs
  | openAt path | openAtDirect path | openAtAuto path | mkDirAt path | unlinkAt path =>
      exact path_iff path
  | linkAt fromPath toPath => exact paths_iff fromPath toPath fun _ => by simp [cancel, combine]
  | symlinkAt path target =>
      show _ ↔ (path.bytes != 0 && target.bytes != 0) = true
      rw [Bool.and_comm]
      exact paths_iff target path fun _ => by simp [cancel, combine, or_comm]
  | read buf | readFixed buf | write buf | writeFixed buf => exact buffer_iff buf
  | _ => exact iff_of_true (fun _ h => absurd h List.not_mem_nil) rfl

def twoBuffers : Vectored where
  bufs := [.owned ⟨4096, 512⟩, .owned ⟨8192, 512⟩]
  iovecs := 64
  apart := by decide

/-- The time of a timeout is inline, as is the address of a connect; the array of a
vectored read is freed as the read is given up, and the boxes of a `Statx` and of a
`Read` into an array are not freed at all. -/
theorem contract_broken :
    ¬ timeout.Contract ∧ ¬ (connect (.v4 #v[127, 0, 0, 1] 80)).Contract ∧
      ¬ (readVectored twoBuffers).Contract ∧ ¬ (statx 4096).Contract ∧
      ¬ (read (.array ⟨4096, 512⟩)).Contract := by
  refine ⟨not_contract (inline_not_kept _ (by decide)),
    not_contract (inline_not_kept _ (by decide)), ?_, ?_, ?_⟩
  · intro h
    exact absurd ((vectored_iff twoBuffers).mp h) (by decide)
  · have hsize : sizeOfStatx ≠ 0 := by decide
    exact box_not_contract (statx 4096) hsize rfl fun _ h => List.mem_append_right _ h
  · intro h
    exact absurd ((buffer_iff (.array ⟨4096, 512⟩)).mp h) (by decide)

end AnyOp

end Inel.Reactor
