import Inel.Io.Ranges
import Inel.Op.File
import Mathlib.Algebra.Group.Int.Defs

/-!
# Advice about a range of a file

The kernel takes advice about `len` bytes from `offset` on, or about the rest of the
file if `len` is zero. The op has a range of bytes to put that way.
-/

namespace Inel.Reactor

open Inel.Io Inel.Io.RangeBounds Places

/-! ## Conversions -/

theorem toNat_usize_succ {n : Nat} (h : n + 1 < 2 ^ 64) : (UInt64.ofNat n + 1).toNat = n + 1 := by
  rw [UInt64.toNat_add, UInt64.toNat_ofNat_of_lt' (Nat.lt_of_succ_lt h)]
  exact Nat.mod_eq_of_lt h

theorem toInt_toInt64_of_lt {n : UInt64} (h : n.toNat < 2 ^ 63) : n.toInt64.toInt = n.toNat := by
  change n.toBitVec.toInt = _
  rw [BitVec.toInt_eq_toNat_of_lt (by change 2 * n.toNat < 2 ^ 64; omega)]
  rfl

theorem toInt_toInt64_of_le {n : UInt64} (h : 2 ^ 63 ≤ n.toNat) :
    n.toInt64.toInt = n.toNat - 2 ^ 64 := by
  change n.toBitVec.toInt = _
  rw [BitVec.toInt_eq_toNat_cond, if_neg]
  · rfl
  · change ¬ 2 * n.toNat < 2 ^ 64
    omega

theorem toInt64_eq_zero_iff {n : UInt64} : n.toInt64 = 0 ↔ n.toNat = 0 := by
  rw [← Int64.toBitVec_inj, ← BitVec.toNat_inj]
  exact Iff.rfl

namespace FAdvise

variable {R : Type} [RangeBounds R]

/-- The bytes that the kernel takes the advice to be about. -/
def advised (offset : UInt64) (len : Int64) (i : Nat) : Bool :=
  offset.toNat ≤ i && (len == 0 || (i : Int) < offset.toNat + len.toInt)

/-- An offset and a length stand for a range, and for what a view with that range shows
of the contents of the file. -/
structure Denotes (range : R) (offset : UInt64) (len : Int64) : Prop where
  offset_eq : offset.toNat = first range
  len_eq : ∀ stop, last? range = some stop → len.toInt = stop - offset.toNat
  rest : len = 0 ↔ last? range = none
  exact : ∀ i, advised offset len i = contains range i
  view : ∀ contents : BoxBuf, kept (advised offset len) contents =
    (⟨contents, range⟩ : View BoxBuf R).stableSlice

/-- An entry gives the advice about the range of the op. -/
def Advises (advise : FAdvise R) : Opcode → Prop
  | .fadvise source len advice offset =>
      source = advise.src ∧ advice = advise.advice ∧ Denotes advise.range offset len
  | _ => False

/-- Each bound is an `i64`. -/
structure BoundsFit (range : R) : Prop where
  start : ∀ index, startBound range = .included index ∨ startBound range = .excluded index →
    index < 2 ^ 63
  stop : ∀ index, endBound range = .included index ∨ endBound range = .excluded index →
    index < 2 ^ 63

variable {range : R}

theorem BoundsFit.fits (h : BoundsFit range) : Fits range where
  start := fun index hindex => by
    have hlt := h.start index (Or.inr hindex)
    omega
  stop := fun index hindex => by
    have hlt := h.stop index (Or.inl hindex)
    omega

theorem BoundsFit.last_le (h : BoundsFit range) {stop : Nat} (hstop : last? range = some stop) :
    stop ≤ 2 ^ 63 := by
  unfold last? at hstop
  split at hstop
  · next index hindex =>
      have hlt := h.stop index (Or.inl hindex)
      have hsucc := Option.some.inj hstop
      omega
  · next index hindex =>
      have hlt := h.stop index (Or.inr hindex)
      have heq := Option.some.inj hstop
      omega
  · exact nomatch hstop

theorem toNat_offset (h : BoundsFit range) : (offset range).toNat = first range := by
  unfold offset first
  cases hbound : startBound range with
  | included index =>
      have hlt := h.start index (Or.inl hbound)
      exact UInt64.toNat_ofNat_of_lt' (Nat.lt_trans hlt (by decide))
  | excluded index =>
      have hlt := h.start index (Or.inr hbound)
      exact toNat_usize_succ (by omega)
  | unbounded => rfl

/-- The length is where the range ends. -/
theorem toNat_len (h : BoundsFit range) : (len range).toNat = (last? range).getD 0 := by
  unfold len last?
  cases hbound : endBound range with
  | included index =>
      have hlt := h.stop index (Or.inl hbound)
      exact toNat_usize_succ (by omega)
  | excluded index =>
      have hlt := h.stop index (Or.inr hbound)
      exact UInt64.toNat_ofNat_of_lt' (Nat.lt_trans hlt (by decide))
  | unbounded => rfl

theorem toNat_len_of_last {stop : Nat} (h : BoundsFit range) (hlast : last? range = some stop) :
    (len range).toNat = stop := by
  rw [toNat_len h, hlast]
  rfl

/-- Only the last `i64` as an included bound makes the end of the range no `i64`. -/
theorem BoundsFit.end_ne_iff {stop : Nat} (h : BoundsFit range) (hlast : last? range = some stop) :
    endBound range ≠ .included (2 ^ 63 - 1) ↔ stop < 2 ^ 63 := by
  have hle := h.last_le hlast
  unfold last? at hlast
  split at hlast
  · next index hindex =>
      have hstop := Option.some.inj hlast
      rw [hindex, Ne, Bound.included.injEq]
      omega
  · next index hindex =>
      have hlt := h.stop index (Or.inr hindex)
      have hstop := Option.some.inj hlast
      rw [hindex]
      exact iff_of_true (fun heq => nomatch heq) (by omega)
  · exact nomatch hlast

/-- What stands for the positions of a range shows them of any contents. -/
theorem kept_advised {offset : UInt64} {len : Int64} (hfits : Fits range)
    (hexact : ∀ i, advised offset len i = contains range i) (contents : BoxBuf) :
    kept (advised offset len) contents = (⟨contents, range⟩ : View BoxBuf R).stableSlice := by
  rw [View.stableSlice_eq_clipped hfits]
  exact kept_congr fun i _ => hexact i

theorem denotes_of_unbounded (h : BoundsFit range) (hlast : last? range = none) :
    Denotes range (offset range) (len range).toInt64 := by
  have hlen : (len range).toInt64 = 0 := by
    rw [toInt64_eq_zero_iff, toNat_len h, hlast]
    rfl
  have hexact : ∀ i, advised (offset range) (len range).toInt64 i = contains range i := by
    intro i
    rw [Bool.eq_iff_iff, contains_iff, advised, hlen, toNat_offset h, hlast]
    simp
  constructor
  · exact toNat_offset h
  · intro stop hstop
    rw [hlast] at hstop
    exact nomatch hstop
  · exact iff_of_true hlen hlast
  · exact hexact
  · exact kept_advised h.fits hexact

theorem denotes_of_zero {stop : Nat} (h : BoundsFit range) (hlast : last? range = some stop)
    (hpos : 0 < stop) (hlt : stop < 2 ^ 63) (hfirst : first range = 0) :
    Denotes range (offset range) (len range).toInt64 := by
  have hnat := toNat_len_of_last h hlast
  have hlen : (len range).toInt64.toInt = stop := by
    rw [toInt_toInt64_of_lt (by omega), hnat]
  have hne : ¬ (len range).toInt64 = 0 := by
    rw [toInt64_eq_zero_iff]
    omega
  have hoffset : (offset range).toNat = 0 := (toNat_offset h).trans hfirst
  have hexact : ∀ i, advised (offset range) (len range).toInt64 i = contains range i := by
    intro i
    rw [Bool.eq_iff_iff, contains_iff, advised, hoffset, hlen, hlast, hfirst]
    simp [hne]
  constructor
  · exact toNat_offset h
  · intro stop' hstop
    rw [hlast] at hstop
    rw [hlen, hoffset, ← Option.some.inj hstop]
    omega
  · exact iff_of_false hne (by rw [hlast]; exact Option.some_ne_none stop)
  · exact hexact
  · exact kept_advised h.fits hexact

/-- A length that is the end of the range is its size only if the range starts at zero. -/
theorem first_of_denotes {stop : Nat} (h : BoundsFit range) (hlast : last? range = some stop)
    (hdenotes : Denotes range (offset range) (len range).toInt64) :
    first range = 0 ∧ stop < 2 ^ 63 := by
  have hnat := toNat_len_of_last h hlast
  have hle := h.last_le hlast
  have hoffset := toNat_offset h
  have hoffset_lt := (offset range).toNat_lt
  have hlen := hdenotes.len_eq stop hlast
  rcases Nat.lt_or_ge stop (2 ^ 63) with hlt | hge
  · rw [toInt_toInt64_of_lt (by omega), hnat] at hlen
    omega
  · rw [toInt_toInt64_of_le (by omega), hnat] at hlen
    omega

/-- An entry stands for the range of its op if and only if the range goes to the end of
the file or starts at the beginning. -/
theorem entry_advises_iff (advise : FAdvise R) (hfit : BoundsFit advise.range)
    (hne : ∃ i, contains advise.range i = true) :
    advise.Advises (op.entry advise).1 ↔ last? advise.range = none ∨
      first advise.range = 0 ∧ endBound advise.range ≠ .included (2 ^ 63 - 1) := by
  have hadvises : advise.Advises (op.entry advise).1 ↔
      Denotes advise.range (offset advise.range) (len advise.range).toInt64 :=
    ⟨fun h => h.2.2, fun h => ⟨rfl, rfl, h⟩⟩
  rw [hadvises]
  cases hlast : last? advise.range with
  | none => exact iff_of_true (denotes_of_unbounded hfit hlast) (Or.inl rfl)
  | some stop =>
      rw [hfit.end_ne_iff hlast]
      constructor
      · intro hdenotes
        exact Or.inr (first_of_denotes hfit hlast hdenotes)
      · intro hcond
        obtain ⟨hfirst, hlt⟩ := hcond.resolve_left (Option.some_ne_none stop)
        obtain ⟨i, hi⟩ := hne
        have hpos := ((contains_iff _ i).mp hi).2 stop hlast
        exact denotes_of_zero hfit hlast (by omega) hlt hfirst

/-- Advice about the first ten bytes. -/
theorem first_ten_advised :
    Advises ⟨.fd 3, 1, RangeTo.mk 10⟩ (op.entry ⟨.fd 3, 1, RangeTo.mk 10⟩).1 := by
  refine (entry_advises_iff ⟨.fd 3, 1, RangeTo.mk 10⟩ ⟨?_, ?_⟩ ⟨0, rfl⟩).mpr
    (Or.inr ⟨rfl, fun h => nomatch h⟩)
  · intro index hindex
    exact hindex.elim (fun h => nomatch h) (fun h => nomatch h)
  · intro index hindex
    rcases hindex with hincluded | hexcluded
    · exact nomatch hincluded
    · rw [← Bound.excluded.inj hexcluded]
      decide

/-- Advice about the bytes from 2 up to 5 is given about five bytes, not three. -/
theorem third_byte_on_misadvised :
    (op.entry ⟨.fd 3, 1, Io.Range.mk 2 5⟩).1 = .fadvise (.fd 3) 5 1 2 ∧
      ¬ Advises ⟨.fd 3, 1, Io.Range.mk 2 5⟩ (op.entry ⟨.fd 3, 1, Io.Range.mk 2 5⟩).1 := by
  refine ⟨rfl, ?_⟩
  intro hadvises
  have hlen := hadvises.2.2.len_eq 5 rfl
  exact absurd hlen (by decide)

end FAdvise

end Inel.Reactor
