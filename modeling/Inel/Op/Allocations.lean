import Inel.Op.Memory
import Mathlib.Algebra.BigOperators.Group.List.Basic
import Mathlib.Algebra.GroupWithZero.Nat

/-!
# Allocations behind cancellations

A cancellation keeps a pointer and one number of what it was made from. Its callback
makes an owner again from these two and drops it, which gives the allocation back
with the capacity that the number says; but what is made again of a box is a `Box<()>`,
which gives nothing back.
-/

namespace Inel.Reactor

/-- Where an allocation is and how many elements it has room for. -/
structure Extent where
  address : Nat
  capacity : Nat
deriving DecidableEq, Repr

/-- A `Vec` of something with a size, whose elements need not fill it. -/
structure VecParts where
  address : Nat
  len : Nat
  capacity : Nat
  len_le : len ≤ capacity

namespace VecParts

def extent (vec : VecParts) : Extent := ⟨vec.address, vec.capacity⟩

/-- `CString::into_bytes`: the byte at the end is popped, and its room stays. -/
def ofCString (address bytes : Nat) : VecParts := ⟨address, bytes, bytes + 1, Nat.le_succ bytes⟩

end VecParts

/-- The pointer and the metadata, by what the callback takes them for. -/
inductive RawCancellation
  | empty
  /-- The metadata is not looked at. -/
  | boxed (ptr metadata : Nat)
  | vec (ptr metadata : Nat)
  /-- What is at the pointer is an array of cancellations. -/
  | combined (ptr metadata : Nat) (cells : List RawCancellation)
deriving Repr

namespace RawCancellation

mutual

/-- The owners that `drop_raw` makes again, by what they give back. -/
def dropRaw : RawCancellation → List Extent
  | .empty => []
  -- `Box::from_raw` of a `*mut ()`
  | .boxed _ _ => []
  | .vec ptr len => [⟨ptr, len⟩]
  | .combined ptr len cells => ⟨ptr, len⟩ :: dropCells len cells

/-- The first cells of an array are dropped. -/
def dropCells : Nat → List RawCancellation → List Extent
  | 0, _ => []
  | _ + 1, [] => []
  | len + 1, cell :: cells => dropRaw cell ++ dropCells len cells

end

def ofBox (block : Boxed) : RawCancellation := .boxed block.address 0

def ofVec (vec : VecParts) : RawCancellation := .vec vec.address vec.len

def ofSlice (block : Boxed) : RawCancellation := .vec block.address block.size

/-- `Cancellation::combine` of a `Vec` at this address. -/
def combine (address : Nat) (cancels : List RawCancellation) : RawCancellation :=
  .combined address cancels.length cancels

end RawCancellation

/-- What is turned into a cancellation. -/
inductive Owned
  /-- `&'static str` and `&'static [u8]`. -/
  | static
  /-- A `Box<T>`, with the size of `T`. -/
  | boxed (block : Boxed)
  | optionBoxed (block : Option Boxed)
  | vec (elems : VecParts)
  | string (bytes : VecParts)
  | cString (address bytes : Nat)
  | slice (block : Boxed)
  | optionSlice (block : Option Boxed)
  | view (inner : Owned)
  /-- The `Vec` of the parts has room for `spare` more. -/
  | combine (address spare : Nat) (parts : List Owned)

namespace Owned

mutual

/-- The conversions, each as its `From` has it. -/
def into : Owned → RawCancellation
  | .static => .empty
  | .boxed block => .ofBox block
  | .optionBoxed block => (block.map .ofBox).getD .empty
  | .vec elems => .ofVec elems
  | .string bytes => .ofVec bytes
  | .cString address bytes => .ofVec (.ofCString address bytes)
  | .slice block => .ofSlice block
  | .optionSlice block => (block.map .ofSlice).getD .empty
  | .view inner => into inner
  | .combine address _ parts => .combine address (intoAll parts)

def intoAll : List Owned → List RawCancellation
  | [] => []
  | part :: parts => into part :: intoAll parts

end

/-- A box of something without a size has no allocation. -/
def boxExtents (block : Boxed) : List Extent :=
  if block.size = 0 then [] else [⟨block.address, 1⟩]

mutual

/-- The allocations of a value, with the capacity that each was made with. -/
def extents : Owned → List Extent
  | .static => []
  | .boxed block => boxExtents block
  | .optionBoxed block => (block.map boxExtents).getD []
  | .vec elems => [elems.extent]
  | .string bytes => [bytes.extent]
  | .cString address bytes => [⟨address, bytes + 1⟩]
  | .slice block => [⟨block.address, block.size⟩]
  | .optionSlice block => (block.map fun block => [⟨block.address, block.size⟩]).getD []
  | .view inner => extents inner
  | .combine address spare parts => ⟨address, parts.length + spare⟩ :: extentsAll parts

def extentsAll : List Owned → List Extent
  | [] => []
  | part :: parts => extents part ++ extentsAll parts

end

mutual

/-- Every vector is full, and there is no string with a byte at its end and no box of
something with a size. -/
def full : Owned → Bool
  | .boxed block => block.size == 0
  | .optionBoxed block => block.all (·.size == 0)
  | .vec elems => elems.len == elems.capacity
  | .string bytes => bytes.len == bytes.capacity
  | .cString _ _ => false
  | .view inner => full inner
  | .combine _ spare parts => spare == 0 && fullAll parts
  | _ => true

def fullAll : List Owned → Bool
  | [] => true
  | part :: parts => full part && fullAll parts

end

/-- Each allocation is given back once, at its address and with its capacity. -/
def GivenBack (value : Owned) : Prop := value.into.dropRaw.Perm value.extents

/-! ## What is given back -/

/-- How much there is to give back; every allocation counts. -/
def room (extents : List Extent) : Nat := (extents.map fun extent => extent.capacity + 1).sum

theorem room_append (first second : List Extent) :
    room (first ++ second) = room first + room second := by
  simp [room]

/-- No more is given back than was made, and if it is as much it is the same. -/
structure Within (given made : List Extent) : Prop where
  room_le : room given ≤ room made
  same : room made ≤ room given → given = made

namespace Within

theorem refl (extents : List Extent) : Within extents extents := ⟨Nat.le_refl _, fun _ => rfl⟩

theorem nil (made : List Extent) : Within [] made := by
  refine ⟨Nat.zero_le _, fun h => ?_⟩
  cases made with
  | nil => rfl
  | cons extent rest =>
      have hzero : room (extent :: rest) ≤ 0 := h
      simp [room] at hzero

theorem extent (address : Nat) {capacity capacity' : Nat} (h : capacity ≤ capacity') :
    Within [⟨address, capacity⟩] [⟨address, capacity'⟩] := by
  refine ⟨by simp [room, h], fun hsame => ?_⟩
  have hle : capacity' ≤ capacity := by simpa [room] using hsame
  rw [Nat.le_antisymm h hle]

variable {given given' made made' : List Extent}

theorem append_eq_iff (h : Within given made) (h' : Within given' made') :
    given ++ given' = made ++ made' ↔ given = made ∧ given' = made' := by
  constructor
  · intro heq
    have hroom := congrArg room heq
    rw [room_append, room_append] at hroom
    have hle := h.room_le
    have hle' := h'.room_le
    exact ⟨h.same (by omega), h'.same (by omega)⟩
  · rintro ⟨rfl, rfl⟩
    rfl

theorem append (h : Within given made) (h' : Within given' made') :
    Within (given ++ given') (made ++ made') := by
  have hle := h.room_le
  have hle' := h'.room_le
  constructor
  · rw [room_append, room_append]
    omega
  · rw [room_append, room_append]
    intro hroom
    rw [h.same (by omega), h'.same (by omega)]

end Within

theorem length_intoAll (parts : List Owned) : (intoAll parts).length = parts.length := by
  induction parts with
  | nil => rfl
  | cons part parts ih => rw [intoAll, List.length_cons, List.length_cons, ih]

mutual

theorem into_within : ∀ value : Owned, Within value.into.dropRaw value.extents
  | .static => .refl []
  | .boxed block => .nil (boxExtents block)
  | .optionBoxed none => .refl []
  | .optionBoxed (some block) => .nil (boxExtents block)
  | .vec elems => .extent elems.address elems.len_le
  | .string bytes => .extent bytes.address bytes.len_le
  | .cString address bytes => .extent address (Nat.le_succ bytes)
  | .slice block => .refl [⟨block.address, block.size⟩]
  | .optionSlice none => .refl []
  | .optionSlice (some block) => .refl [⟨block.address, block.size⟩]
  | .view inner => into_within inner
  | .combine address spare parts => by
      have hcells := intoAll_within parts
      rw [← length_intoAll] at hcells
      have hle : (intoAll parts).length ≤ parts.length + spare := by
        rw [length_intoAll]
        exact Nat.le_add_right _ _
      exact (Within.extent address hle).append hcells

theorem intoAll_within : ∀ parts : List Owned,
    Within (RawCancellation.dropCells parts.length (intoAll parts)) (extentsAll parts)
  | [] => .refl []
  | part :: parts => (into_within part).append (intoAll_within parts)

end

theorem room_eq_of_perm {given made : List Extent} (h : given.Perm made) :
    room given = room made := (h.map _).sum_eq

theorem givenBack_iff_eq (value : Owned) :
    value.GivenBack ↔ value.into.dropRaw = value.extents := by
  constructor
  · intro h
    exact (into_within value).same (Nat.le_of_eq (room_eq_of_perm h).symm)
  · intro h
    exact List.Perm.of_eq h

theorem vec_eq_iff (elems : VecParts) :
    (RawCancellation.ofVec elems).dropRaw = [elems.extent] ↔
      (elems.len == elems.capacity) = true := by
  simp [RawCancellation.ofVec, RawCancellation.dropRaw, VecParts.extent]

theorem box_eq_iff (block : Boxed) :
    (RawCancellation.ofBox block).dropRaw = boxExtents block ↔ (block.size == 0) = true := by
  rw [RawCancellation.ofBox, RawCancellation.dropRaw, boxExtents, beq_iff_eq]
  split
  · next hsize => exact iff_of_true rfl hsize
  · next hsize => exact iff_of_false (List.cons_ne_nil _ _).symm hsize

mutual

theorem into_eq_iff : ∀ value : Owned,
    value.into.dropRaw = value.extents ↔ value.full = true
  | .static => iff_of_true rfl rfl
  | .boxed block => box_eq_iff block
  | .optionBoxed none => iff_of_true rfl rfl
  | .optionBoxed (some block) => box_eq_iff block
  | .vec elems => vec_eq_iff elems
  | .string bytes => vec_eq_iff bytes
  | .cString address bytes => by
      refine iff_of_false ?_ Bool.false_ne_true
      intro h
      exact Nat.succ_ne_self bytes (Extent.mk.inj (List.cons.inj h).1).2.symm
  | .slice _ => iff_of_true rfl rfl
  | .optionSlice none => iff_of_true rfl rfl
  | .optionSlice (some _) => iff_of_true rfl rfl
  | .view inner => into_eq_iff inner
  | .combine address spare parts => by
      have hparts := intoAll_eq_iff parts
      have hlen := length_intoAll parts
      change Extent.mk address (intoAll parts).length :: RawCancellation.dropCells _ _ =
        Extent.mk address (parts.length + spare) :: extentsAll parts ↔
        (spare == 0 && fullAll parts) = true
      rw [hlen, List.cons.injEq, hparts, Bool.and_eq_true, beq_iff_eq, Extent.mk.injEq]
      constructor
      · intro h
        exact ⟨by omega, h.2⟩
      · intro h
        exact ⟨⟨rfl, by omega⟩, h.2⟩

theorem intoAll_eq_iff : ∀ parts : List Owned,
    RawCancellation.dropCells parts.length (intoAll parts) = extentsAll parts ↔
      fullAll parts = true
  | [] => iff_of_true rfl rfl
  | part :: parts => by
      change part.into.dropRaw ++ RawCancellation.dropCells parts.length (intoAll parts) =
        part.extents ++ extentsAll parts ↔ (part.full && fullAll parts) = true
      rw [(into_within part).append_eq_iff (intoAll_within parts), into_eq_iff part,
        intoAll_eq_iff parts, Bool.and_eq_true]

end

/-- `drop_raw` gives each allocation back once, as it was made, if and only if every
vector is full and there is no C string and no box of something with a size. -/
theorem givenBack_iff (value : Owned) : value.GivenBack ↔ value.full = true := by
  rw [givenBack_iff_eq]
  exact into_eq_iff value

/-- A string of 12 bytes with room for 32, a C string, both in a combination, and a box
of four bytes. -/
theorem spare_room_lost :
    (string ⟨64, 12, 32, by decide⟩).into.dropRaw = [⟨64, 12⟩] ∧
    ¬ (string ⟨64, 12, 32, by decide⟩).GivenBack ∧
    (cString 96 3).into.dropRaw = [⟨96, 3⟩] ∧ ¬ (cString 96 3).GivenBack ∧
    ¬ (combine 128 0 [string ⟨64, 12, 32, by decide⟩, cString 96 3]).GivenBack ∧
    (boxed ⟨160, 4⟩).into.dropRaw = [] ∧ ¬ (boxed ⟨160, 4⟩).GivenBack ∧
    ¬ (combine 128 0 [boxed ⟨160, 4⟩]).GivenBack := by
  refine ⟨rfl, ?_, rfl, ?_, ?_, rfl, ?_, ?_⟩
  · rw [givenBack_iff_eq]
    decide
  · rw [givenBack_iff_eq]
    decide
  · rw [givenBack_iff_eq]
    decide
  · rw [givenBack_iff_eq]
    decide
  · rw [givenBack_iff_eq]
    decide

end Owned

/-! ## Buffers of ops -/

def Buffer.converted : Buffer → Owned
  | .static _ => .static
  | .array block => .boxed block
  | .owned block => .slice block
  | .absent => .optionSlice none
  | .fixed block => .slice block
  | .view inner _ _ => .view inner.converted

/-- What `drop_raw` gives back of a buffer is what it is said to free. -/
theorem Buffer.dropRaw_converted (buf : Buffer) :
    buf.converted.into.dropRaw = buf.cancel.map fun block => ⟨block.address, block.size⟩ := by
  induction buf with
  | static len => rfl
  | array block => rfl
  | owned block => rfl
  | absent => rfl
  | fixed block => rfl
  | view inner start stop ih => exact ih

/-- Of a path's, what there is room for. -/
theorem CString.dropRaw_converted (path : CString) :
    (((Owned.cString path.address path.bytes).into.dropRaw.filter (0 < ·.capacity)).map
      Extent.address) = path.cancel.map Boxed.address := by
  by_cases hbytes : path.bytes = 0
  · simp [Owned.into, VecParts.ofCString, RawCancellation.ofVec, RawCancellation.dropRaw,
      CString.cancel, hbytes]
  · simp [Owned.into, VecParts.ofCString, RawCancellation.ofVec, RawCancellation.dropRaw,
      CString.cancel, CString.block, hbytes, Nat.pos_of_ne_zero hbytes]

end Inel.Reactor
