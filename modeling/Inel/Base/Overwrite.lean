import Mathlib.Data.List.Basic

/-!
# Overwriting

Writing to a position of a list, which grows as far as needed. Writes that follow on
each other are one write of what they wrote.
-/

namespace Overwriting

variable {α : Type}

/-- The list with `data` from `pos` on; what was never written is `blank`. -/
def overwrite (blank : α) (xs : List α) (pos : Nat) (data : List α) : List α :=
  xs.take pos ++ List.replicate (pos - xs.length) blank ++ data ++ xs.drop (pos + data.length)

variable {blank : α} {xs data : List α} {pos : Nat}

theorem overwrite_zero : overwrite blank xs 0 data = data ++ xs.drop data.length := by
  simp [overwrite]

theorem length_before : (xs.take pos ++ List.replicate (pos - xs.length) blank).length = pos := by
  rw [List.length_append, List.length_take, List.length_replicate]
  omega

theorem overwrite_overwrite (more : List α) :
    overwrite blank (overwrite blank xs pos data) (pos + data.length) more =
      overwrite blank xs pos (data ++ more) := by
  have hbefore : (xs.take pos ++ List.replicate (pos - xs.length) blank).length = pos :=
    length_before
  have hwritten : (xs.take pos ++ List.replicate (pos - xs.length) blank ++ data).length =
      pos + data.length := by
    rw [List.length_append, hbefore]
  have hlength : pos + data.length ≤ (overwrite blank xs pos data).length := by
    rw [overwrite, List.length_append, hwritten]
    exact Nat.le_add_right _ _
  have htake : (overwrite blank xs pos data).take (pos + data.length) =
      xs.take pos ++ List.replicate (pos - xs.length) blank ++ data := by
    rw [overwrite, List.take_left' hwritten]
  have hdrop : (overwrite blank xs pos data).drop (pos + data.length + more.length) =
      xs.drop (pos + (data ++ more).length) := by
    rw [← List.drop_drop, overwrite, List.drop_left' hwritten, List.drop_drop, List.length_append,
      Nat.add_assoc]
  rw [overwrite, htake, hdrop, Nat.sub_eq_zero_of_le hlength, overwrite]
  simp [List.append_assoc]

end Overwriting
