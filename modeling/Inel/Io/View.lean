import Mathlib.Data.List.Basic
import Inel.Reactor.Result

/-!
# Buffers and views

A buffer lends its memory to the kernel, so all that is asked of it is where the
memory is and how much of it there is. A view is a buffer with a range of it; the
range may reach past the buffer and is cut off there.
-/

namespace Inel.Io

open Inel.Reactor (Panic)

class StableBuffer (B : Type) where
  size : B → Nat

/-- `copyAt` copies to the bytes of `stable_mut_slice` from a position on. -/
class StableBufferMut (B : Type) extends StableBuffer B where
  copyAt : B → Nat → List UInt8 → B
  size_copyAt : ∀ buffer pos data, size (copyAt buffer pos data) = size buffer

/-- Buffers whose bytes are modelled. -/
class Bytes (B : Type) extends StableBufferMut B where
  stableSlice : B → List UInt8
  length_stableSlice : ∀ buffer, (stableSlice buffer).length = size buffer
  stableSlice_copyAt : ∀ buffer pos data, pos + data.length ≤ size buffer →
    stableSlice (copyAt buffer pos data) =
      (stableSlice buffer).take pos ++ data ++ (stableSlice buffer).drop (pos + data.length)

export StableBuffer (size)
export StableBufferMut (copyAt size_copyAt)
export Bytes (stableSlice length_stableSlice stableSlice_copyAt)

attribute [simp] size_copyAt length_stableSlice

/-! ## Ranges -/

inductive Bound
  | included (index : Nat)
  | excluded (index : Nat)
  | unbounded
deriving DecidableEq, Repr

class RangeBounds (R : Type) where
  startBound : R → Bound
  endBound : R → Bound

structure Range where
  start : Nat
  stop : Nat
deriving DecidableEq, Repr

structure RangeTo where
  stop : Nat
deriving DecidableEq, Repr

def Range.isEmpty (range : Range) : Bool := !(range.start < range.stop)

instance : RangeBounds Range where
  startBound range := .included range.start
  endBound range := .excluded range.stop

instance : RangeBounds RangeTo where
  startBound _ := .unbounded
  endBound range := .excluded range.stop

/-! ## Views -/

structure View (B R : Type) where
  inner : B
  range : R
deriving DecidableEq, Repr

namespace View

variable {B R : Type}

section Region

variable [RangeBounds R]

/-- The sum wraps around. -/
def start (view : View B R) : Nat :=
  match RangeBounds.startBound view.range with
  | .included index => index
  | .excluded index => (index + 1) % 2 ^ 64
  | .unbounded => 0

def stop [StableBuffer B] (view : View B R) : Nat :=
  match RangeBounds.endBound view.range with
  | .included index => (index + 1) % 2 ^ 64
  | .excluded index => index
  | .unbounded => size view.inner

def size [StableBuffer B] (view : View B R) : Nat :=
  min view.stop (StableBuffer.size view.inner) - view.start

/-- `size` bytes from `start` on; there is none to read where the buffer is absent. -/
def stableSlice [Bytes B] (view : View B R) : List UInt8 :=
  ((Bytes.stableSlice view.inner).drop view.start).take view.size

end Region

/-! ### The unread part of a buffer -/

/-- The sum wraps around. -/
def consume (view : View B Range) (amt : Nat) : View B Range :=
  { view with range :=
      { view.range with start := min ((view.range.start + amt) % 2 ^ 64) view.range.stop } }

theorem stableSlice_range [Bytes B] (view : View B Range) :
    view.stableSlice =
      ((Bytes.stableSlice view.inner).take view.range.stop).drop view.range.start := by
  have hlen := Bytes.length_stableSlice view.inner
  rw [List.drop_take]
  change List.take (min view.range.stop _ - view.range.start) _ = _
  rw [← hlen]
  rcases Nat.le_total view.range.stop (Bytes.stableSlice view.inner).length with hle | hge
  · rw [Nat.min_eq_left hle]
    rfl
  · rw [Nat.min_eq_right hge, List.take_of_length_le, List.take_of_length_le]
    · rfl
    · rw [List.length_drop]
      omega
    · exact Nat.le_of_eq (List.length_drop ..)

theorem stableSlice_consume [Bytes B] (view : View B Range) {amt : Nat}
    (hfits : view.range.start + amt < 2 ^ 64) :
    (view.consume amt).stableSlice = view.stableSlice.drop amt := by
  rw [stableSlice_range, stableSlice_range, consume, Nat.mod_eq_of_lt hfits, List.drop_drop]
  rcases Nat.le_total (view.range.start + amt) view.range.stop with hle | hge
  · rw [Nat.min_eq_left hle]
  · rw [Nat.min_eq_right hge, List.drop_of_length_le, List.drop_of_length_le]
    · exact Nat.le_trans (List.length_take_le _ _) hge
    · exact List.length_take_le _ _

/-! ### The written part of a buffer -/

def setPos (view : View B RangeTo) (pos : Nat) : View B RangeTo := { view with range := ⟨pos⟩ }

def spareCapacity [StableBuffer B] (view : View B RangeTo) : Nat :=
  StableBuffer.size view.inner - view.range.stop

/-- Copies what fits behind the bytes written so far and says how many that were. -/
def fill [StableBufferMut B] (view : View B RangeTo) (data : List UInt8) :
    Except Panic (Nat × View B RangeTo) :=
  let pos := view.range.stop
  if pos ≤ StableBuffer.size view.inner then
    let wrote := min (StableBuffer.size view.inner - pos) data.length
    .ok (wrote, ⟨copyAt view.inner pos (data.take wrote), ⟨pos + wrote⟩⟩)
  else .error .index

theorem inner_of_fill [StableBufferMut B] {view view' : View B RangeTo} {data : List UInt8}
    {n : Nat} (h : view.fill data = .ok (n, view')) :
    ∃ copied, view'.inner = copyAt view.inner view.range.stop copied := by
  unfold fill at h
  simp only at h
  split at h
  · obtain ⟨-, rfl⟩ := Prod.mk.inj (Except.ok.inj h)
    exact ⟨_, rfl⟩
  · simp at h

theorem stableSlice_rangeTo [Bytes B] (view : View B RangeTo) :
    view.stableSlice = (Bytes.stableSlice view.inner).take view.range.stop := by
  have hlen := Bytes.length_stableSlice view.inner
  change ((Bytes.stableSlice view.inner).drop 0).take (min view.range.stop _ - 0) = _
  rw [List.drop_zero, Nat.sub_zero, ← hlen, ← List.take_take, List.take_length]

theorem length_stableSlice_le [Bytes B] (view : View B RangeTo) :
    view.stableSlice.length ≤ view.range.stop := by
  rw [stableSlice_rangeTo]
  exact List.length_take_le _ _

theorem stableSlice_zero [Bytes B] {view : View B RangeTo} (h : view.range.stop = 0) :
    view.stableSlice = [] := by
  rw [stableSlice_rangeTo, h, List.take_zero]

theorem fill_spec [Bytes B] {view : View B RangeTo} (data : List UInt8)
    (hpos : view.range.stop ≤ StableBuffer.size view.inner) :
    ∃ view', view.fill data = .ok (min view.spareCapacity data.length, view') ∧
      view'.inner = copyAt view.inner view.range.stop
        (data.take (min view.spareCapacity data.length)) ∧
      view'.range.stop = view.range.stop + min view.spareCapacity data.length ∧
      view'.stableSlice = view.stableSlice ++ data.take (min view.spareCapacity data.length) := by
  have hfill : view.fill data = .ok (min view.spareCapacity data.length,
      ⟨copyAt view.inner view.range.stop (data.take (min view.spareCapacity data.length)),
        ⟨view.range.stop + min view.spareCapacity data.length⟩⟩) := if_pos hpos
  refine ⟨_, hfill, rfl, rfl, ?_⟩
  have hlen := Bytes.length_stableSlice view.inner
  have hcount : (data.take (min view.spareCapacity data.length)).length =
      min view.spareCapacity data.length := by simp
  have hroom : view.range.stop + (data.take (min view.spareCapacity data.length)).length ≤
      StableBuffer.size view.inner := by
    rw [hcount, spareCapacity]
    omega
  rw [stableSlice_rangeTo, stableSlice_rangeTo]
  dsimp only
  rw [stableSlice_copyAt _ _ _ hroom, List.take_left']
  rw [List.length_append, hcount, List.length_take, hlen]
  omega

theorem fill_take [Bytes B] {view : View B RangeTo} (data : List UInt8)
    (hpos : view.range.stop ≤ StableBuffer.size view.inner) :
    ∃ view', view.fill (data.take (min view.spareCapacity data.length)) =
        .ok (min view.spareCapacity data.length, view') ∧
      view'.inner = copyAt view.inner view.range.stop
        (data.take (min view.spareCapacity data.length)) ∧
      view'.range.stop ≤ StableBuffer.size view'.inner ∧
      view'.stableSlice = view.stableSlice ++ data.take (min view.spareCapacity data.length) := by
  have hlen : (data.take (min view.spareCapacity data.length)).length =
      min view.spareCapacity data.length := by simp
  have hcount : min view.spareCapacity (data.take (min view.spareCapacity data.length)).length =
      min view.spareCapacity data.length := by omega
  obtain ⟨view', hfill, hinner, hstop, hslice⟩ := fill_spec
    (data.take (min view.spareCapacity data.length)) hpos
  rw [hcount] at hfill hinner hstop hslice
  rw [List.take_take, Nat.min_self] at hinner hslice
  refine ⟨view', hfill, hinner, ?_, hslice⟩
  rw [hstop, hinner, size_copyAt, spareCapacity]
  omega

end View

/-! ## Buffers -/

/-- The bytes of a `Box<[u8]>`. -/
abbrev BoxBuf := List UInt8

/-- A registered buffer and its slot. The memory is there as long as the buffer is. -/
structure Fixed where
  inner : BoxBuf
  slot : UInt32
deriving DecidableEq, Repr

/-- Overwrites the bytes from a position on. -/
def splice (bytes : List UInt8) (pos : Nat) (data : List UInt8) : List UInt8 :=
  bytes.take pos ++ data.take (bytes.length - pos) ++ bytes.drop (pos + data.length)

theorem length_splice (bytes : List UInt8) (pos : Nat) (data : List UInt8) :
    (splice bytes pos data).length = bytes.length := by
  simp only [splice, List.length_append, List.length_take, List.length_drop]
  omega

theorem splice_of_le {bytes : List UInt8} {pos : Nat} {data : List UInt8}
    (h : pos + data.length ≤ bytes.length) :
    splice bytes pos data = bytes.take pos ++ data ++ bytes.drop (pos + data.length) := by
  have hfits : data.length ≤ bytes.length - pos := by omega
  rw [splice, List.take_of_length_le hfits]

instance : Bytes BoxBuf where
  size := List.length
  copyAt := splice
  size_copyAt := length_splice
  stableSlice := id
  length_stableSlice _ := rfl
  stableSlice_copyAt _ _ _ := splice_of_le

instance : Bytes Fixed where
  size fixed := fixed.inner.length
  copyAt fixed pos data := { fixed with inner := splice fixed.inner pos data }
  size_copyAt fixed := length_splice fixed.inner
  stableSlice := Fixed.inner
  length_stableSlice _ := rfl
  stableSlice_copyAt _ _ _ := splice_of_le

/-- An absent buffer has a null pointer and size zero. -/
instance {B : Type} [StableBuffer B] : StableBuffer (Option B) where
  size buffer := (buffer.map StableBuffer.size).getD 0

instance {B : Type} [StableBufferMut B] : StableBufferMut (Option B) where
  copyAt buffer pos data := buffer.map (copyAt · pos data)
  size_copyAt buffer pos data := by cases buffer <;> simp [StableBuffer.size]

instance {B : Type} [Bytes B] : Bytes (Option B) where
  stableSlice buffer := (buffer.map Bytes.stableSlice).getD []
  length_stableSlice buffer := by
    cases buffer with
    | none => rfl
    | some buffer => exact Bytes.length_stableSlice buffer
  stableSlice_copyAt buffer pos data h := by
    cases buffer with
    | none =>
        have hdata : data = [] := List.length_eq_zero_iff.mp (by
          change pos + data.length ≤ 0 at h
          omega)
        simp [hdata, copyAt]
    | some buffer => exact stableSlice_copyAt buffer pos data h

end Inel.Io
