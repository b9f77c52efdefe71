import Mathlib.Algebra.BigOperators.Fin
import Mathlib.Data.List.Perm.Basic
import Inel.Base.Slab

/-!
# Weights

A list weighs what its members weigh together, and so does a table of slots, where
the weight of a member may depend on its slot. Whatever moves between lists and
tables takes its weight with it. With one member counted for one, the weight says
how often it is there.
-/

namespace Weights

variable {α : Type} {m : α → Nat} {l : List α} {i : Nat} {a : α}

def total (m : α → Nat) (l : List α) : Nat := (l.map m).sum

@[simp] theorem total_nil (m : α → Nat) : total m [] = 0 := rfl

@[simp] theorem total_cons (m : α → Nat) (a : α) (l : List α) :
    total m (a :: l) = m a + total m l := by
  simp [total]

@[simp] theorem total_append (m : α → Nat) (l l' : List α) :
    total m (l ++ l') = total m l + total m l' := by
  simp [total]

theorem total_perm {l' : List α} (m : α → Nat) (h : l.Perm l') : total m l = total m l' :=
  (h.map m).sum_eq

theorem total_eraseIdx (m : α → Nat) (h : l[i]? = some a) :
    total m (l.eraseIdx i) + m a = total m l := by
  obtain ⟨hlt, rfl⟩ := List.getElem?_eq_some_iff.mp h
  rw [← total_perm m (List.getElem_cons_eraseIdx_perm hlt), total_cons, Nat.add_comm]

theorem total_set (m : α → Nat) (h : l[i]? = some a) (b : α) :
    total m (l.set i b) + m a = total m l + m b := by
  obtain ⟨hlt, -⟩ := List.getElem?_eq_some_iff.mp h
  have herase := total_eraseIdx m h
  rw [total_perm m (List.set_perm_cons_eraseIdx hlt b), total_cons]
  omega

theorem total_erase [BEq α] [LawfulBEq α] (m : α → Nat) (h : a ∈ l) :
    total m (l.erase a) + m a = total m l := by
  rw [total_perm m (List.perm_cons_erase h), total_cons, Nat.add_comm]

theorem total_map {β : Type} (m : β → Nat) (f : α → β) (l : List α) :
    total m (l.map f) = total (m ∘ f) l := by
  rw [total, List.map_map, total]

theorem total_one (l : List α) : total (fun _ => 1) l = l.length := by
  induction l with
  | nil => rfl
  | cons a l ih => simp [ih, Nat.add_comm]

def ofOption (m : α → Nat) (a : Option α) : Nat := (a.map m).getD 0

@[simp] theorem ofOption_none (m : α → Nat) : ofOption m none = 0 := rfl

@[simp] theorem ofOption_some (m : α → Nat) (a : α) : ofOption m (some a) = m a := rfl

theorem total_filterMap {β : Type} (m : β → Nat) (f : α → Option β) (l : List α) :
    total m (l.filterMap f) = total (fun a => ofOption m (f a)) l := by
  induction l with
  | nil => rfl
  | cons a l ih =>
      cases hf : f a with
      | none => simp [hf, ih]
      | some b => simp [hf, ih]

theorem total_count [BEq α] (a : α) (l : List α) :
    total (fun b => if b == a then 1 else 0) l = l.count a := by
  induction l with
  | nil => rfl
  | cons b l ih => simp [ih, List.count_cons, Nat.add_comm]

/-- Lists that weigh the same, whatever the members weigh, have the same members. -/
theorem perm_iff [BEq α] [LawfulBEq α] {l' : List α} :
    l.Perm l' ↔ ∀ m : α → Nat, total m l = total m l' := by
  constructor
  · exact fun h m => total_perm m h
  · intro h
    refine List.perm_iff_count.mpr fun a => ?_
    rw [← total_count, ← total_count, h]

/-! ## Sums over numbers -/

/-- A sum may go on where there is nothing more. -/
theorem sum_range_eq {f : Nat → Nat} {n n' : Nat} (hf : ∀ j, n ≤ j → f j = 0) (h : n ≤ n') :
    ∑ j ∈ Finset.range n, f j = ∑ j ∈ Finset.range n', f j := by
  refine Finset.sum_subset (Finset.range_subset_range.mpr h) fun j _ hj => hf j ?_
  exact Nat.le_of_not_lt fun hlt => hj (Finset.mem_range.mpr hlt)

/-- Two sums that differ in one place differ by what is there. -/
theorem sum_range_change {f g : Nat → Nat} {n n' i : Nat} (hf : ∀ j, n ≤ j → f j = 0)
    (hg : ∀ j, n' ≤ j → g j = 0) (h : ∀ j, j ≠ i → g j = f j) :
    ∑ j ∈ Finset.range n', g j + f i = ∑ j ∈ Finset.range n, f j + g i := by
  have hmem : i ∈ Finset.range (n + n' + i + 1) := Finset.mem_range.mpr (by omega)
  have hsame : ∑ j ∈ (Finset.range (n + n' + i + 1)).erase i, g j =
      ∑ j ∈ (Finset.range (n + n' + i + 1)).erase i, f j :=
    Finset.sum_congr rfl fun j hj => h j (Finset.mem_erase.mp hj).1
  rw [sum_range_eq hf (show n ≤ n + n' + i + 1 by omega),
    sum_range_eq hg (show n' ≤ n + n' + i + 1 by omega),
    ← Finset.sum_erase_add _ f hmem, ← Finset.sum_erase_add _ g hmem, hsame]
  omega

end Weights

namespace SlotTable.Slab

open Weights

variable {α : Type} {t : Slab α} {i : Nat} {a : α}

/-- What the members of a table weigh, each in its slot. -/
def total (m : Nat → α → Nat) (t : Slab α) : Nat :=
  ∑ i ∈ Finset.range t.slots.length, ofOption (m i) (t.get i)

theorem ofOption_get_of_length_le (m : Nat → α → Nat) (h : t.slots.length ≤ i) :
    ofOption (m i) (t.get i) = 0 := by
  simp [get, List.getElem?_eq_none h]

theorem total_congr {m m' : Nat → α → Nat}
    (h : ∀ i, i < t.slots.length → ∀ a, m i a = m' i a) : t.total m = t.total m' := by
  refine Finset.sum_congr rfl fun i hi => ?_
  rw [funext (h i (Finset.mem_range.mp hi))]

theorem total_insert (m : Nat → α → Nat) (h : t.admits i = true) (a : α) :
    (t.insert i a).total m = t.total m + m i a := by
  have hchange := sum_range_change (i := i) (fun j => ofOption_get_of_length_le (t := t) m)
    (fun j => ofOption_get_of_length_le (t := t.insert i a) m) fun j hj => by
      rw [get_insert h, if_neg hj]
  rw [get_insert h, if_pos rfl, get_of_admits h] at hchange
  exact hchange

theorem total_remove (m : Nat → α → Nat) (h : t.get i = some a) :
    (t.remove i).total m + m i a = t.total m := by
  have hchange := sum_range_change (i := i) (fun j => ofOption_get_of_length_le (t := t) m)
    (fun j => ofOption_get_of_length_le (t := t.remove i) m) fun j hj => by
      rw [get_remove, if_neg hj]
  rw [get_remove, if_pos rfl, h] at hchange
  exact hchange

def contents (t : Slab α) : List α := t.slots.filterMap id

theorem total_contents (m : α → Nat) (t : Slab α) :
    t.total (fun _ => m) = Weights.total m t.contents := by
  rw [contents, total_filterMap, Weights.total, ← Fin.sum_univ_fun_getElem, total,
    Finset.sum_range]
  refine Finset.sum_congr rfl fun j _ => ?_
  rw [get, List.getElem?_eq_getElem j.isLt, Option.join_some]
  rfl

theorem length_contents (t : Slab α) : t.contents.length = t.len := by
  rw [contents, List.length_filterMap_eq_countP]
  rfl

theorem total_one (t : Slab α) : t.total (fun _ _ => 1) = t.len := by
  rw [total_contents, Weights.total_one, length_contents]

theorem total_at (m : α → Nat) (t : Slab α) (i : Nat) :
    t.total (fun j a => if j = i then m a else 0) = ofOption m (t.get i) := by
  have hothers : ∀ j, j ≠ i → ofOption (fun a => if j = i then m a else 0) (t.get j) = 0 := by
    intro j hj
    cases t.get j with
    | none => rfl
    | some a => simp [hj]
  rw [total, Finset.sum_eq_single i (fun j _ hj => hothers j hj)]
  · simp
  · intro hi
    refine ofOption_get_of_length_le (fun _ => _) ?_
    simpa using hi

end SlotTable.Slab
