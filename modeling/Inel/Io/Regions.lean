import Inel.Base.Blocks
import Inel.Io.Ranges

/-!
# Regions

What the kernel gets of a buffer is an address and a size. A view computes both from
those of the buffer in it: the address wraps around, the size stops at zero.
-/

namespace Inel.Io

open Blocks

/-- A buffer that says where its memory is. -/
class StablePtr (B : Type) extends StableBuffer B where
  /-- `stable_ptr`, and `stable_mut_ptr`, which is the same address. -/
  stablePtr : B → UInt64

export StablePtr (stablePtr)

/-! ## Buffers in memory -/

/-- A buffer and the address of its memory, which is null only if there is none. -/
structure Placed (B : Type) [StableBuffer B] where
  buffer : B
  address : UInt64
  fits : address.toNat + StableBuffer.size buffer ≤ 2 ^ 64
  nonnull : 0 < StableBuffer.size buffer → 0 < address.toNat

namespace Placed

variable {B : Type}

instance [StableBuffer B] : StablePtr (Placed B) where
  size placed := StableBuffer.size placed.buffer
  stablePtr placed := placed.address

variable [Bytes B]

def memory (placed : Placed B) : Block UInt8 :=
  ⟨placed.address.toNat, Bytes.stableSlice placed.buffer⟩

theorem length_cells (placed : Placed B) :
    placed.memory.cells.length = StableBuffer.size placed.buffer :=
  Bytes.length_stableSlice placed.buffer

/-- Writes to memory. Nothing is written for no data, wherever that points. -/
def write (placed : Placed B) (address : Nat) (data : List UInt8) : Placed B :=
  if data.isEmpty then placed
  else
    { placed with
      buffer := copyAt placed.buffer (address - placed.address.toNat) data
      fits := by rw [size_copyAt]; exact placed.fits
      nonnull := by rw [size_copyAt]; exact placed.nonnull }

variable {placed : Placed B} {address : Nat} {data : List UInt8}

theorem address_write : (placed.write address data).address = placed.address := by
  unfold write
  split <;> rfl

theorem size_write :
    StableBuffer.size (placed.write address data).buffer = StableBuffer.size placed.buffer := by
  unfold write
  split
  · rfl
  · exact size_copyAt _ _ _

theorem memory_write (hlow : placed.address.toNat ≤ address)
    (hhigh : address + data.length ≤ placed.address.toNat + StableBuffer.size placed.buffer) :
    (placed.write address data).memory.cells =
      overwrite placed.memory.cells (address - placed.address.toNat) data := by
  unfold write
  split
  · next hempty =>
      rw [List.isEmpty_iff.mp hempty, overwrite, List.append_nil, List.length_nil, Nat.add_zero,
        List.take_append_drop]
  · exact stableSlice_copyAt _ _ _ (by omega)

end Placed

/-! ## Regions of views -/

namespace View

variable {B R : Type} [StablePtr B] [RangeBounds R]

/-- `wrapping_add`. -/
instance : StablePtr (View B R) where
  size := View.size
  stablePtr view := stablePtr view.inner + .ofNat view.start

variable {view : View B R}

theorem start_add_size_le (hpos : 0 < view.size) :
    view.start + view.size ≤ StableBuffer.size view.inner := by
  unfold size at hpos ⊢
  omega

/-- The address of what a view shows does not wrap around unless nothing is shown. -/
theorem toNat_stablePtr (hpos : 0 < view.size)
    (hfits : (stablePtr view.inner).toNat + StableBuffer.size view.inner ≤ 2 ^ 64) :
    (stablePtr view).toNat = (stablePtr view.inner).toNat + view.start := by
  have hle := start_add_size_le hpos
  have hlt : view.start < 2 ^ 64 := by omega
  have hstart : (UInt64.ofNat view.start).toNat = view.start := UInt64.toNat_ofNat_of_lt' hlt
  change (stablePtr view.inner + UInt64.ofNat view.start).toNat = _
  rw [UInt64.toNat_add, hstart]
  exact Nat.mod_eq_of_lt (by omega)

end View

end Inel.Io
