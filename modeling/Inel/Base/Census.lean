import Mathlib.Data.List.Basic
import Mathlib.Data.List.Perm.Basic
import Mathlib.Data.List.Range

/-!
# A census of numbered places

Some of the places below a bound hold a value; the census lists these values. As
one place changes, what it held goes and what it holds comes.
-/

namespace Census

variable {α : Type}

def census (place : Nat → Option α) (bound : Nat) : List α := (List.range bound).filterMap place

theorem mem_census {place : Nat → Option α} {bound : Nat} {a : α} :
    a ∈ census place bound ↔ ∃ i < bound, place i = some a := by
  simp [census]

/-- Places that hold nothing add nothing. -/
theorem census_of_le {place : Nat → Option α} {bound bound' : Nat} (hle : bound ≤ bound')
    (hnone : ∀ i, bound ≤ i → place i = none) : census place bound' = census place bound := by
  induction hle with
  | refl => rfl
  | @step m hm ih =>
      rw [census, List.range_succ, List.filterMap_append]
      have hlast : List.filterMap place [m] = [] := by simp [hnone m hm]
      rw [hlast, List.append_nil]
      exact ih

theorem census_perm (place : Nat → Option α) {bound i : Nat} (hi : i < bound) :
    (census place bound).Perm
      ((place i).toList ++ ((List.range bound).erase i).filterMap place) := by
  have hmem : i ∈ List.range bound := List.mem_range.mpr hi
  have hperm := (List.perm_cons_erase hmem).filterMap place
  rw [List.filterMap_cons] at hperm
  unfold census
  cases hplace : place i with
  | none => simpa [hplace] using hperm
  | some a => simpa [hplace] using hperm

/-- One place changes; the bound may grow to take it in. -/
theorem census_update {place place' : Nat → Option α} {bound bound' i : Nat}
    (hle : bound ≤ bound') (hi : i < bound') (hnone : ∀ j, bound ≤ j → place j = none)
    (hothers : ∀ j, j ≠ i → place' j = place j) :
    ((place' i).toList ++ census place bound).Perm
      ((place i).toList ++ census place' bound') := by
  rw [← census_of_le hle hnone]
  have hrest : ((List.range bound').erase i).filterMap place' =
      ((List.range bound').erase i).filterMap place := by
    refine List.filterMap_congr fun j hj => hothers j ?_
    exact ((List.nodup_range.mem_erase_iff).mp hj).1
  have hbefore := (census_perm place hi).append_left (place' i).toList
  have hafter := (census_perm place' hi).append_left (place i).toList
  rw [hrest] at hafter
  refine hbefore.trans (.trans ?_ hafter.symm)
  rw [← List.append_assoc, ← List.append_assoc]
  exact List.perm_append_comm.append_right _

end Census
