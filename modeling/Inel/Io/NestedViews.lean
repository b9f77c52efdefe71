import Inel.Base.Transition
import Inel.Io.Regions

/-!
# Nested views

A view is a buffer, so there are views of views, to any depth. Whatever is done to
the views and to the buffer below them, the region of the outermost view is what the
ranges leave of the bytes of the buffer, one after the other.
-/

namespace Inel.Io

open Blocks Transitions
open Inel.Reactor (Panic)

/-- The ranges that views are made with, and any others by their bounds. -/
inductive AnyRange
  | range (range : Range)
  | rangeTo (range : RangeTo)
  | bounds (start stop : Bound)
deriving DecidableEq, Repr

instance : RangeBounds AnyRange where
  startBound
    | .range range => RangeBounds.startBound range
    | .rangeTo range => RangeBounds.startBound range
    | .bounds start _ => start
  endBound
    | .range range => RangeBounds.endBound range
    | .rangeTo range => RangeBounds.endBound range
    | .bounds _ stop => stop

namespace View

variable {B : Type}

def consumeAny (view : View B AnyRange) (amt : Nat) : View B AnyRange :=
  match view.range with
  | .range range =>
      let consumed := (View.mk view.inner range).consume amt
      ⟨consumed.inner, .range consumed.range⟩
  | _ => view

def setPosAny (view : View B AnyRange) (pos : Nat) : View B AnyRange :=
  match view.range with
  | .rangeTo range =>
      let moved := (View.mk view.inner range).setPos pos
      ⟨moved.inner, .rangeTo moved.range⟩
  | _ => view

/-- `fill`, for a view with a `RangeTo`. -/
def fillAny [StableBufferMut B] (view : View B AnyRange) (data : List UInt8) :
    Except Panic (View B AnyRange) :=
  match view.range with
  | .rangeTo range => do
      let (_, filled) ← (View.mk view.inner range).fill data
      return ⟨filled.inner, .rangeTo filled.range⟩
  | _ => .ok view

theorem fits_range (range : Range) : RangeBounds.Fits (AnyRange.range range) where
  start := fun _ h => nomatch h
  stop := fun _ h => nomatch h

theorem fits_rangeTo (range : RangeTo) : RangeBounds.Fits (AnyRange.rangeTo range) where
  start := fun _ h => nomatch h
  stop := fun _ h => nomatch h

variable {view view' : View B AnyRange} {data : List UInt8}

theorem consumeAny_spec (h : RangeBounds.Fits view.range) (amt : Nat) :
    RangeBounds.Fits (view.consumeAny amt).range ∧ (view.consumeAny amt).inner = view.inner := by
  unfold consumeAny
  split
  · exact ⟨fits_range _, rfl⟩
  · exact ⟨h, rfl⟩

theorem setPosAny_spec (h : RangeBounds.Fits view.range) (pos : Nat) :
    RangeBounds.Fits (view.setPosAny pos).range ∧ (view.setPosAny pos).inner = view.inner := by
  unfold setPosAny
  split
  · exact ⟨fits_rangeTo _, rfl⟩
  · exact ⟨h, rfl⟩

theorem fillAny_spec [StableBufferMut B] (h : RangeBounds.Fits view.range)
    (hok : view.fillAny data = .ok view') :
    RangeBounds.Fits view'.range ∧
      (view'.inner = view.inner ∨ ∃ pos copied, view'.inner = copyAt view.inner pos copied) := by
  unfold fillAny at hok
  split at hok
  · obtain ⟨⟨count, filled⟩, hfill, hret⟩ := bind_eq_ok hok
    obtain rfl := Except.ok.inj hret
    obtain ⟨copied, hinner⟩ := inner_of_fill hfill
    exact ⟨fits_rangeTo _, Or.inr ⟨_, copied, hinner⟩⟩
  · obtain rfl := Except.ok.inj hok
    exact ⟨h, Or.inl rfl⟩

end View

/-- A buffer in memory with `n` views around it. -/
def Nest (B : Type) [StableBuffer B] : Nat → Type
  | 0 => Placed B
  | n + 1 => View (Nest B n) AnyRange

namespace Nest

variable {B : Type}

instance instStablePtr [StableBuffer B] : (n : Nat) → StablePtr (Nest B n)
  | 0 => inferInstanceAs (StablePtr (Placed B))
  | n + 1 =>
      let _ : StablePtr (Nest B n) := instStablePtr n
      inferInstanceAs (StablePtr (View (Nest B n) AnyRange))

def base [StableBuffer B] : {n : Nat} → Nest B n → Placed B
  | 0, placed => placed
  | _ + 1, view => base (View.inner view)

def mapBase [StableBuffer B] (f : Placed B → Placed B) : {n : Nat} → Nest B n → Nest B n
  | 0, placed => f placed
  | _ + 1, view => View.mk (mapBase f (View.inner view)) (View.range view)

section Regions

variable [Bytes B] {n : Nat}

/-- What is left of the bytes of the buffer once each range cut off its part. -/
def clipped : {n : Nat} → Nest B n → List UInt8
  | 0, placed => Bytes.stableSlice (Placed.buffer placed)
  | _ + 1, view => Io.clipped (View.range view) (clipped (View.inner view))

/-- The bytes that the pointer and the size of a buffer denote. -/
def region (nest : Nest B n) : Option (List UInt8) :=
  nest.base.memory.read (stablePtr nest).toNat (StableBuffer.size nest)

/-- Reading a null pointer is avoided. -/
def slice (nest : Nest B n) : Option (List UInt8) :=
  if stablePtr nest = 0 then some [] else nest.region

theorem inside (nest : Nest B n) (hpos : 0 < StableBuffer.size nest) :
    nest.base.address.toNat ≤ (stablePtr nest).toNat ∧
      (stablePtr nest).toNat + StableBuffer.size nest ≤
        nest.base.address.toNat + StableBuffer.size nest.base.buffer := by
  induction n with
  | zero => exact ⟨Nat.le_refl _, Nat.le_refl _⟩
  | succ n ih =>
      let view : View (Nest B n) AnyRange := nest
      have hle : view.start + view.size ≤ StableBuffer.size view.inner :=
        View.start_add_size_le hpos
      obtain ⟨hlow, hhigh⟩ := ih view.inner (by change 0 < view.size at hpos; omega)
      have hfits := (base view.inner).fits
      have hptr : (stablePtr view).toNat = (stablePtr view.inner).toNat + view.start :=
        View.toNat_stablePtr hpos (by omega)
      change (base view.inner).address.toNat ≤ (stablePtr view).toNat ∧
        (stablePtr view).toNat + view.size ≤
          (base view.inner).address.toNat + StableBuffer.size (base view.inner).buffer
      change 0 < view.size at hpos
      omega

theorem region_eq (nest : Nest B n) :
    nest.region = some ((nest.base.memory.cells.drop
      ((stablePtr nest).toNat - nest.base.address.toNat)).take (StableBuffer.size nest)) := by
  rcases Nat.eq_zero_or_pos (StableBuffer.size nest) with hzero | hpos
  · rw [region, hzero, List.take_zero]
    rfl
  · obtain ⟨hlow, hhigh⟩ := inside nest hpos
    apply Block.read_eq hlow
    rw [Placed.length_cells]
    exact hhigh

def bytes (nest : Nest B n) : List UInt8 :=
  (nest.base.memory.cells.drop ((stablePtr nest).toNat - nest.base.address.toNat)).take
    (StableBuffer.size nest)

theorem length_bytes (nest : Nest B n) : nest.bytes.length = StableBuffer.size nest := by
  rcases Nat.eq_zero_or_pos (StableBuffer.size nest) with hzero | hpos
  · rw [bytes, hzero, List.take_zero, List.length_nil]
  · obtain ⟨hlow, hhigh⟩ := inside nest hpos
    rw [bytes, List.length_take, List.length_drop, Placed.length_cells]
    omega

/-- The region of a view is the part of the inner region that the view shows. -/
theorem bytes_view (view : View (Nest B n) AnyRange) :
    bytes (n := n + 1) view = ((bytes view.inner).drop view.start).take view.size := by
  rcases Nat.eq_zero_or_pos view.size with hzero | hpos
  · change List.take view.size _ = _
    rw [hzero, List.take_zero, List.take_zero]
  · have hle := View.start_add_size_le hpos
    obtain ⟨hlow, hhigh⟩ := inside view.inner (by omega)
    have hfits := (base view.inner).fits
    have hptr : (stablePtr view).toNat = (stablePtr view.inner).toNat + view.start :=
      View.toNat_stablePtr hpos (by omega)
    have hsub : (stablePtr view).toNat - (base view.inner).address.toNat =
        (stablePtr view.inner).toNat - (base view.inner).address.toNat + view.start := by omega
    change List.take view.size (List.drop
      ((stablePtr view).toNat - (base view.inner).address.toNat) _) = _
    rw [hsub, bytes, List.drop_take, List.drop_drop, List.take_take, Nat.min_eq_left (by omega)]
    rfl

/-! ### Writing through a view -/

/-- Copies to what the pointer and the size denote, from a position on. -/
def copy (nest : Nest B n) (pos : Nat) (data : List UInt8) : Nest B n :=
  nest.mapBase (·.write ((stablePtr nest).toNat + pos) data)

theorem base_mapBase (f : Placed B → Placed B) (nest : Nest B n) :
    (nest.mapBase f).base = f nest.base := by
  induction n with
  | zero => rfl
  | succ n ih => exact ih (View.inner nest)

theorem size_mapBase {f : Placed B → Placed B}
    (hsize : ∀ placed, StableBuffer.size (f placed).buffer = StableBuffer.size placed.buffer)
    (nest : Nest B n) : StableBuffer.size (nest.mapBase f) = StableBuffer.size nest := by
  induction n with
  | zero => exact hsize nest
  | succ n ih =>
      let view : View (Nest B n) AnyRange := nest
      have hinner := ih view.inner
      change View.size ⟨mapBase f view.inner, view.range⟩ = view.size
      unfold View.size View.stop View.start
      rw [hinner]

theorem stablePtr_mapBase {f : Placed B → Placed B}
    (haddress : ∀ placed, (f placed).address = placed.address) (nest : Nest B n) :
    stablePtr (nest.mapBase f) = stablePtr nest := by
  induction n with
  | zero => exact haddress nest
  | succ n ih =>
      let view : View (Nest B n) AnyRange := nest
      have hinner := ih view.inner
      change stablePtr (mapBase f view.inner) + UInt64.ofNat view.start =
        stablePtr view.inner + UInt64.ofNat view.start
      rw [hinner]

theorem size_copy (nest : Nest B n) (pos : Nat) (data : List UInt8) :
    StableBuffer.size (nest.copy pos data) = StableBuffer.size nest :=
  size_mapBase (fun _ => Placed.size_write) nest

/-- Copied data is seen in the region, and nothing else in it changes. -/
theorem bytes_copy (nest : Nest B n) (pos : Nat) (data : List UInt8)
    (h : pos + data.length ≤ StableBuffer.size nest) :
    (nest.copy pos data).bytes = overwrite nest.bytes pos data := by
  have hptr : stablePtr (nest.copy pos data) = stablePtr nest :=
    stablePtr_mapBase (fun _ => Placed.address_write) nest
  have hbase : (nest.copy pos data).base =
      nest.base.write ((stablePtr nest).toNat + pos) data := base_mapBase _ _
  rw [bytes, hptr, hbase, size_copy, Placed.address_write]
  rcases Nat.eq_zero_or_pos (StableBuffer.size nest) with hzero | hpos
  · have hdata : data = [] := List.length_eq_zero_iff.mp (by omega)
    rw [hzero, List.take_zero, bytes, hzero, List.take_zero, hdata]
    simp [overwrite]
  · obtain ⟨hlow, hhigh⟩ := inside nest hpos
    have hsub : (stablePtr nest).toNat + pos - nest.base.address.toNat =
        (stablePtr nest).toNat - nest.base.address.toNat + pos := by omega
    rw [Placed.memory_write (by omega) (by omega), hsub]
    apply window_overwrite
    · rw [Placed.length_cells]
      omega
    · exact h

/-- Nested views are buffers, whose bytes are those of the region. -/
instance instBytes : Bytes (Nest B n) where
  toStableBuffer := (instStablePtr n).toStableBuffer
  copyAt := copy
  size_copyAt := size_copy
  stableSlice := bytes
  length_stableSlice := length_bytes
  stableSlice_copyAt := bytes_copy

/-! ### What the ranges leave -/

/-- No bound that needs one more is `usize::MAX`. -/
def Fits : {n : Nat} → Nest B n → Prop
  | 0, _ => True
  | _ + 1, view => RangeBounds.Fits (View.range view) ∧ Fits (View.inner view)

/-- The region is what the ranges leave. -/
theorem bytes_eq_clipped {nest : Nest B n} (h : nest.Fits) : nest.bytes = nest.clipped := by
  induction n with
  | zero =>
      have hlen := Bytes.length_stableSlice (Placed.buffer nest)
      change ((Bytes.stableSlice (Placed.buffer nest)).drop
        ((Placed.address nest).toNat - (Placed.address nest).toNat)).take
          (StableBuffer.size (Placed.buffer nest)) = Bytes.stableSlice (Placed.buffer nest)
      rw [Nat.sub_self, List.drop_zero, ← hlen, List.take_length]
  | succ n ih =>
      let view : View (Nest B n) AnyRange := nest
      have hinner : bytes view.inner = clipped view.inner := ih h.2
      have hview : view.stableSlice = Io.clipped view.range (bytes view.inner) :=
        View.stableSlice_eq_clipped h.1
      rw [hinner] at hview
      exact (bytes_view view).trans hview

/-- The pointer and the size of a buffer denote what the ranges leave of it, which is in
its memory, and writing there changes that and nothing else. -/
structure Denotes (nest : Nest B n) : Prop where
  region : nest.region = some nest.clipped
  slice : nest.slice = some nest.clipped
  inside : 0 < StableBuffer.size nest → nest.base.address.toNat ≤ (stablePtr nest).toNat ∧
    (stablePtr nest).toNat + StableBuffer.size nest ≤
      nest.base.address.toNat + StableBuffer.size nest.base.buffer
  copied : ∀ pos data, pos + data.length ≤ StableBuffer.size nest →
    (nest.copy pos data).clipped = overwrite nest.clipped pos data

theorem fits_mapBase {f : Placed B → Placed B} {nest : Nest B n} (h : nest.Fits) :
    (nest.mapBase f).Fits := by
  induction n with
  | zero => trivial
  | succ n ih => exact ⟨h.1, ih h.2⟩

theorem clipped_of_null {nest : Nest B n} (h : nest.Fits) (hnull : stablePtr nest = 0) :
    nest.clipped = [] := by
  have hzero : StableBuffer.size nest = 0 := by
    rcases Nat.eq_zero_or_pos (StableBuffer.size nest) with hzero | hpos
    · exact hzero
    · obtain ⟨hlow, hhigh⟩ := inside nest hpos
      have hptr : (stablePtr nest).toNat = 0 := by
        rw [hnull]
        rfl
      have hnonnull := nest.base.nonnull
      omega
  rw [← bytes_eq_clipped h, ← List.length_eq_zero_iff, length_bytes, hzero]

theorem Fits.denotes {nest : Nest B n} (h : nest.Fits) : nest.Denotes := by
  have hclipped := bytes_eq_clipped h
  have hregion : nest.region = some nest.clipped := by
    rw [← hclipped]
    exact region_eq nest
  constructor
  · exact hregion
  · rw [slice, hregion]
    split
    · next hnull => rw [clipped_of_null h hnull]
    · rfl
  · exact Nest.inside nest
  · intro pos data hle
    have hcopied : (nest.copy pos data).Fits := fits_mapBase h
    rw [← bytes_eq_clipped hcopied, bytes_copy nest pos data hle, hclipped]

end Regions

end Nest

/-! ## Runs -/

/-- What is done to a view, or by way of `inner_mut` to what is in it. -/
inductive ViewMove (B : Type) [StableBuffer B] : Nat → Type
  | consume {n : Nat} (amt : Nat) : ViewMove B (n + 1)
  | setPos {n : Nat} (pos : Nat) : ViewMove B (n + 1)
  | fill {n : Nat} (data : List UInt8) : ViewMove B (n + 1)
  | replace {n : Nat} (inner : Nest B n) : ViewMove B (n + 1)
  | innerMut {n : Nat} (move : ViewMove B n) : ViewMove B (n + 1)

namespace ViewMove

variable {B : Type} [Bytes B]

/-- A `Range` can be consumed, a `RangeTo` moved and filled. What is put into a view may
be of any size. -/
def permits : {n : Nat} → ViewMove B n → Nest B n → Prop
  | _ + 1, .consume amt, view =>
      ∃ range, View.range view = .range range ∧ range.start + amt < 2 ^ 64
  | _ + 1, .setPos _, view | _ + 1, .fill _, view => ∃ range, View.range view = .rangeTo range
  | _ + 1, .replace inner, _ => inner.Fits
  | _ + 1, .innerMut move, view => move.permits (View.inner view)

def exec : {n : Nat} → ViewMove B n → Nest B n → Except Panic (Nest B n)
  | _ + 1, .consume amt, view => .ok (View.consumeAny view amt)
  | _ + 1, .setPos pos, view => .ok (View.setPosAny view pos)
  | _ + 1, .fill data, view => View.fillAny view data
  | _ + 1, .replace inner, view => .ok (View.mk inner (View.range view))
  | _ + 1, .innerMut move, view => do
      let inner ← move.exec (View.inner view)
      return View.mk inner (View.range view)

variable {n : Nat} {nest nest' : Nest B n} {move : ViewMove B n}

/-- No move brings in a bound that cannot be incremented. -/
theorem fits_of_exec (h : nest.Fits) (hpermits : move.permits nest)
    (hok : move.exec nest = .ok nest') : nest'.Fits := by
  induction move with
  | consume amt =>
      obtain ⟨hrange, hinner⟩ := View.consumeAny_spec h.1 amt
      obtain rfl := Except.ok.inj hok
      refine ⟨hrange, ?_⟩
      rw [hinner]
      exact h.2
  | setPos pos =>
      obtain ⟨hrange, hinner⟩ := View.setPosAny_spec h.1 pos
      obtain rfl := Except.ok.inj hok
      refine ⟨hrange, ?_⟩
      rw [hinner]
      exact h.2
  | fill data =>
      obtain ⟨hrange, hinner⟩ := View.fillAny_spec h.1 hok
      refine ⟨hrange, ?_⟩
      rcases hinner with hsame | ⟨pos, copied, hcopied⟩
      · rw [hsame]
        exact h.2
      · rw [hcopied]
        exact Nest.fits_mapBase h.2
  | replace inner =>
      obtain rfl := Except.ok.inj hok
      exact ⟨h.1, hpermits⟩
  | innerMut move ih =>
      obtain ⟨inner, hinner, hret⟩ := bind_eq_ok hok
      obtain rfl := Except.ok.inj hret
      exact ⟨h.1, ih h.2 hpermits hinner⟩

end ViewMove

namespace Nest

variable {B : Type} [Bytes B] {n : Nat} {nest : Nest B n}

def machine (B : Type) [Bytes B] (n : Nat) : Machine (Nest B n) (ViewMove B n) Panic where
  init := Fits
  permits := fun nest move => move.permits nest
  exec := fun nest move => move.exec nest

/-- At any time in a run the pointer and the size of the outermost view denote what the
ranges leave of the buffer. -/
theorem nested_view_denotes (h : Reach (machine B n) Any nest) : nest.Denotes := by
  have hfits : nest.Fits := by
    apply h.invariant
    · exact fun _ hinit => hinit
    · exact fun _ _ _ hfits hpermits _ hok => ViewMove.fits_of_exec hfits hpermits hok
  exact hfits.denotes

/-- Five bytes, behind the first of which what is written so far is viewed: nothing. -/
def unfilled : Nest BoxBuf 2 :=
  View.mk (View.mk (Placed.mk ([1, 2, 3, 4, 5] : BoxBuf) 4096 (by decide) (by decide))
    (AnyRange.bounds (.excluded 0) .unbounded)) (AnyRange.rangeTo ⟨0⟩)

def shorter : Placed BoxBuf := ⟨[6, 7], 8192, by decide, by decide⟩

/-- Two bytes are written and then the buffer is replaced by one with room for one. -/
theorem replaced_buffer_denotes :
    ∃ filled replaced : Nest BoxBuf 2,
      filled.Denotes ∧ filled.clipped = [9, 8] ∧ filled.base.buffer = [1, 9, 8, 4, 5] ∧
        replaced.Denotes ∧ replaced.clipped = [7] ∧ stablePtr replaced = 8193 := by
  have hstart : Reach (machine BoxBuf 2) Any unfilled := by
    refine .start ⟨View.fits_rangeTo _, ⟨?_, ?_⟩, trivial⟩
    · intro index hindex
      rw [← Bound.excluded.inj hindex]
      decide
    · exact fun index hindex => nomatch hindex
  have hfilled := hstart.move (.fill [9, 8]) ⟨⟨0⟩, rfl⟩ trivial rfl
  have hreplaced := hfilled.move (.innerMut (.replace shorter)) trivial trivial rfl
  exact ⟨_, _, nested_view_denotes hfilled, rfl, rfl, nested_view_denotes hreplaced, rfl, rfl⟩

end Nest

end Inel.Io
