import Inel.Base.Places
import Inel.Io.View

/-!
# Ranges of bytes

A range selects the positions that it contains, however its bounds are written. A view
shows the bytes at those positions.
-/

namespace Inel.Io

open Places

namespace RangeBounds

variable {R : Type} [RangeBounds R]

def contains (range : R) (i : Nat) : Bool :=
  (match startBound range with
    | .included start => decide (start ≤ i)
    | .excluded start => decide (start < i)
    | .unbounded => true) &&
  match endBound range with
    | .included stop => decide (i ≤ stop)
    | .excluded stop => decide (i < stop)
    | .unbounded => true

def first (range : R) : Nat :=
  match startBound range with
  | .included start => start
  | .excluded start => start + 1
  | .unbounded => 0

def last? (range : R) : Option Nat :=
  match endBound range with
  | .included stop => some (stop + 1)
  | .excluded stop => some stop
  | .unbounded => none

/-- A bound that needs one more is not `usize::MAX`. -/
structure Fits (range : R) : Prop where
  start : ∀ index, startBound range = .excluded index → index + 1 < 2 ^ 64
  stop : ∀ index, endBound range = .included index → index + 1 < 2 ^ 64

theorem contains_iff (range : R) (i : Nat) :
    contains range i = true ↔ first range ≤ i ∧ ∀ stop, last? range = some stop → i < stop := by
  have hstart : (match startBound range with
      | .included start => decide (start ≤ i)
      | .excluded start => decide (start < i)
      | .unbounded => true) = true ↔ first range ≤ i := by
    unfold first
    cases startBound range with
    | included start => exact decide_eq_true_iff
    | excluded start => exact decide_eq_true_iff
    | unbounded => simp
  have hstop : (match endBound range with
      | .included stop => decide (i ≤ stop)
      | .excluded stop => decide (i < stop)
      | .unbounded => true) = true ↔ ∀ stop, last? range = some stop → i < stop := by
    unfold last?
    cases endBound range with
    | included stop =>
        rw [decide_eq_true_iff, ← Nat.lt_succ_iff]
        exact ⟨fun hi stop' heq => Option.some.inj heq ▸ hi, fun h => h _ rfl⟩
    | excluded stop =>
        rw [decide_eq_true_iff]
        exact ⟨fun hi stop' heq => Option.some.inj heq ▸ hi, fun h => h _ rfl⟩
    | unbounded => simp
  rw [contains, Bool.and_eq_true, hstart, hstop]

theorem contains_eq_between (range : R) {i size : Nat} (hi : i < size) :
    contains range i = between (first range) ((last? range).getD size) i := by
  rw [Bool.eq_iff_iff, contains_iff, between, Bool.and_eq_true, decide_eq_true_eq,
    decide_eq_true_eq]
  cases last? range with
  | none => simp [hi]
  | some stop => simp

end RangeBounds

open RangeBounds

/-- The bytes at the positions that a range contains. -/
def clipped {R : Type} [RangeBounds R] (range : R) (bytes : List UInt8) : List UInt8 :=
  kept (contains range) bytes

namespace View

variable {B R : Type} [RangeBounds R]

theorem start_eq_first {view : View B R} (h : Fits view.range) : view.start = first view.range := by
  unfold start first
  cases hbound : startBound view.range with
  | included index => rfl
  | excluded index => exact Nat.mod_eq_of_lt (h.start index hbound)
  | unbounded => rfl

theorem stop_eq_last [StableBuffer B] {view : View B R} (h : Fits view.range) :
    view.stop = (last? view.range).getD (StableBuffer.size view.inner) := by
  unfold stop last?
  cases hbound : endBound view.range with
  | included index => exact Nat.mod_eq_of_lt (h.stop index hbound)
  | excluded index => rfl
  | unbounded => rfl

/-- A view shows the bytes that its range selects. -/
theorem stableSlice_eq_clipped [Bytes B] {view : View B R} (h : Fits view.range) :
    view.stableSlice = clipped view.range (Bytes.stableSlice view.inner) := by
  have hlen := Bytes.length_stableSlice view.inner
  have hkept : clipped view.range (Bytes.stableSlice view.inner) =
      ((Bytes.stableSlice view.inner).take view.stop).drop view.start := by
    rw [start_eq_first h, stop_eq_last h, ← kept_between]
    apply kept_congr
    intro i hi
    rw [hlen] at hi
    exact contains_eq_between view.range hi
  rw [hkept, List.drop_take, stableSlice, size]
  rcases Nat.le_total view.stop (StableBuffer.size view.inner) with hle | hge
  · rw [Nat.min_eq_left hle]
  · rw [Nat.min_eq_right hge, List.take_of_length_le, List.take_of_length_le]
    · rw [List.length_drop]
      omega
    · rw [List.length_drop]
      omega

end View

end Inel.Io
